import Hymenium.Foundations.Separators
import Mathlib.Data.Char
import Mathlib.Algebra.BigOperators.Group.List.Basic

/-!
# UTF-8 text

A text is the list of its characters. Offsets count the bytes of the UTF-8 encoding, as string
slices and searches do: a slice whose bound lies beyond the text or inside a character has no
value. The search functions return offsets, and `Text.find_eq_some` and `Text.rfind_eq_some` say
which slices at such an offset have a value.

Lower-casing and the letter classes are parameters (`Unicode`), of which a client may use the
laws; white space and decimal digits are fixed sets.
-/

/-- The characters of a text. -/
abbrev Text := List Char

/-- Tables of the Unicode standard. -/
structure Unicode where
  toLowercase : Text → Text
  isAlphabetic : Char → Bool
  isAlphanumeric : Char → Bool
  /-- ASCII texts are lowered character by character. -/
  ascii : ∀ t, (∀ c ∈ t, c.toNat < 128) → toLowercase t = t.map Char.toLower
  /-- A leading ASCII character is lowered whatever follows it. -/
  head : ∀ c t, c.toNat < 128 → (toLowercase (c :: t)).head? = some c.toLower

/-- The tables restricted to ASCII. -/
def Unicode.asciiTables : Unicode where
  toLowercase t := t.map Char.toLower
  isAlphabetic := Char.isAlpha
  isAlphanumeric := Char.isAlphanum
  ascii _ _ := rfl
  head _ _ _ := rfl

namespace Text

/-- A text of ASCII characters only. -/
def Ascii (t : Text) : Prop := ∀ c ∈ t, c.toNat < 128

instance (t : Text) : Decidable (Ascii t) := List.decidableBAll (fun c : Char => c.toNat < 128) t

/-! ## Bytes and slices -/

/-- Length in bytes. -/
def byteLen : Text → ℕ
  | [] => 0
  | c :: t => c.utf8Size + byteLen t

/-- `&t[n..]`. -/
def sliceFrom : Text → ℕ → Option Text
  | t, 0 => some t
  | [], _ + 1 => none
  | c :: t, n + 1 => if c.utf8Size ≤ n + 1 then sliceFrom t (n + 1 - c.utf8Size) else none

/-- `&t[..n]`. -/
def sliceTo : Text → ℕ → Option Text
  | _, 0 => some []
  | [], _ + 1 => none
  | c :: t, n + 1 =>
    if c.utf8Size ≤ n + 1 then (sliceTo t (n + 1 - c.utf8Size)).map (c :: ·) else none

/-- `&t[i..j]`. -/
def slice (t : Text) (i j : ℕ) : Option Text :=
  if i ≤ j then (sliceFrom t i).bind fun u => sliceTo u (j - i) else none

@[simp] theorem byteLen_nil : byteLen [] = 0 := rfl
@[simp] theorem byteLen_cons (c : Char) (t : Text) : byteLen (c :: t) = c.utf8Size + byteLen t := rfl

@[simp] theorem byteLen_append (a b : Text) : byteLen (a ++ b) = byteLen a + byteLen b := by
  induction a with
  | nil => simp
  | cons c a ih => simp [ih, Nat.add_assoc]

@[simp] theorem sliceFrom_zero (t : Text) : sliceFrom t 0 = some t := by cases t <;> rfl

@[simp] theorem sliceTo_zero (t : Text) : sliceTo t 0 = some [] := by cases t <;> rfl

theorem sliceFrom_cons {c : Char} (t : Text) {n : ℕ} (hn : n ≠ 0) :
    sliceFrom (c :: t) n = if c.utf8Size ≤ n then sliceFrom t (n - c.utf8Size) else none := by
  cases n with
  | zero => exact absurd rfl hn
  | succ n => rfl

theorem sliceTo_cons {c : Char} (t : Text) {n : ℕ} (hn : n ≠ 0) :
    sliceTo (c :: t) n =
      if c.utf8Size ≤ n then (sliceTo t (n - c.utf8Size)).map (c :: ·) else none := by
  cases n with
  | zero => exact absurd rfl hn
  | succ n => rfl

/-- A slice after a first part of the text. -/
@[simp] theorem sliceFrom_append (a b : Text) (n : ℕ) :
    sliceFrom (a ++ b) (byteLen a + n) = sliceFrom b n := by
  induction a with
  | nil => simp
  | cons c a ih =>
    have hc := Char.utf8Size_pos c
    rw [byteLen_cons, List.cons_append, sliceFrom_cons _ (by omega), if_pos (by omega),
      show c.utf8Size + byteLen a + n - c.utf8Size = byteLen a + n by omega, ih]

theorem sliceFrom_byteLen (a b : Text) : sliceFrom (a ++ b) (byteLen a) = some b := by
  simpa using sliceFrom_append a b 0

/-- The slice of a first part of the text. -/
theorem sliceTo_byteLen (a b : Text) : sliceTo (a ++ b) (byteLen a) = some a := by
  induction a with
  | nil => simp
  | cons c a ih =>
    have hc := Char.utf8Size_pos c
    rw [byteLen_cons, List.cons_append, sliceTo_cons _ (by omega), if_pos (by omega),
      Nat.add_sub_cancel_left, ih]
    rfl

/-- A slice from `n` has a value when some first part of the text has `n` bytes. -/
theorem sliceFrom_eq_some {t b : Text} {n : ℕ} :
    sliceFrom t n = some b ↔ ∃ a, t = a ++ b ∧ byteLen a = n := by
  constructor
  · intro h
    induction t generalizing n with
    | nil =>
      cases n with
      | zero => exact ⟨[], by simpa using h, rfl⟩
      | succ n => cases h
    | cons c t ih =>
      rcases Nat.eq_zero_or_pos n with rfl | hn
      · exact ⟨[], by simpa using h, rfl⟩
      · rw [sliceFrom_cons _ (by omega)] at h
        split_ifs at h with hc
        obtain ⟨a, rfl, ha⟩ := ih h
        exact ⟨c :: a, rfl, by rw [byteLen_cons]; omega⟩
  · rintro ⟨a, rfl, rfl⟩
    exact sliceFrom_byteLen a b

theorem infix_of_sliceFrom {t u : Text} {n : ℕ} (h : sliceFrom t n = some u) : u <:+: t := by
  obtain ⟨a, rfl, -⟩ := sliceFrom_eq_some.mp h
  exact (List.suffix_append a u).isInfix

theorem prefix_of_sliceTo {t u : Text} {n : ℕ} (h : sliceTo t n = some u) : u <+: t := by
  induction t generalizing n u with
  | nil =>
    cases n with
    | zero =>
      cases h
      exact List.nil_prefix
    | succ n => cases h
  | cons c t ih =>
    rcases Nat.eq_zero_or_pos n with rfl | hn
    · cases h
      exact List.nil_prefix
    · rw [sliceTo_cons _ (by omega)] at h
      split_ifs at h
      obtain ⟨v, hv, rfl⟩ := Option.map_eq_some_iff.mp h
      exact List.cons_prefix_cons.mpr ⟨rfl, ih hv⟩

/-- The slice between two parts. -/
theorem slice_byteLen (a b c : Text) :
    slice (a ++ b ++ c) (byteLen a) (byteLen a + byteLen b) = some b := by
  rw [slice, if_pos (by omega), List.append_assoc, sliceFrom_byteLen, Option.bind_some,
    Nat.add_sub_cancel_left, sliceTo_byteLen]

/-! ## Patterns -/

/-- `t.starts_with(pat)`. -/
def startsWith (t : Text) (pat : String) : Prop := pat.toList <+: t

/-- `t.contains(pat)`. -/
def contains (t : Text) (pat : String) : Prop := pat.toList <:+: t

instance (t : Text) (pat : String) : Decidable (startsWith t pat) :=
  inferInstanceAs (Decidable (pat.toList <+: t))

instance (t : Text) (pat : String) : Decidable (contains t pat) :=
  inferInstanceAs (Decidable (pat.toList <:+: t))

/-- `t.strip_prefix(pat)`. -/
def stripPrefix (t : Text) (pat : String) : Option Text :=
  if startsWith t pat then some (t.drop pat.toList.length) else none

/-- The offset of the first occurrence of `pat`. -/
def findList (pat : Text) : Text → Option ℕ
  | [] => if pat = [] then some 0 else none
  | c :: t => if pat <+: c :: t then some 0 else (findList pat t).map (c.utf8Size + ·)

/-- `t.find(pat)`. -/
def find (t : Text) (pat : String) : Option ℕ := findList pat.toList t

/-- `t.rfind(c)`. -/
def rfind (c : Char) : Text → Option ℕ
  | [] => none
  | d :: t =>
    match rfind c t with
    | some i => some (d.utf8Size + i)
    | none => if d = c then some 0 else none

theorem startsWith_mono {t u : Text} {pat : String} (h : startsWith t pat) (htu : t <+: u) :
    startsWith u pat :=
  List.IsPrefix.trans h htu

theorem stripPrefix_eq_some {t rest : Text} {pat : String} :
    stripPrefix t pat = some rest ↔ t = pat.toList ++ rest := by
  unfold stripPrefix
  split_ifs with h
  · obtain ⟨u, rfl⟩ := h
    simp
  · constructor
    · intro hn
      cases hn
    · rintro rfl
      exact absurd (List.prefix_append _ _) h

theorem findList_eq_some {pat t : Text} {i : ℕ} (h : findList pat t = some i) :
    ∃ a b, t = a ++ pat ++ b ∧ byteLen a = i := by
  induction t generalizing i with
  | nil =>
    unfold findList at h
    split_ifs at h with hp
    cases h
    exact ⟨[], [], by simp [hp], rfl⟩
  | cons c t ih =>
    unfold findList at h
    split_ifs at h with hp
    · obtain ⟨b, hb⟩ := hp
      cases h
      exact ⟨[], b, by simpa using hb.symm, rfl⟩
    · obtain ⟨j, hj, rfl⟩ := Option.map_eq_some_iff.mp h
      obtain ⟨a, b, rfl, rfl⟩ := ih hj
      exact ⟨c :: a, b, rfl, rfl⟩

/-- What a search finds, and the slices at the offset found. -/
theorem find_eq_some {t : Text} {pat : String} {i : ℕ} (h : find t pat = some i) :
    ∃ a b, t = a ++ pat.toList ++ b ∧ byteLen a = i ∧ sliceTo t i = some a ∧
      sliceFrom t i = some (pat.toList ++ b) ∧
      sliceFrom t (i + byteLen pat.toList) = some b := by
  obtain ⟨a, b, rfl, rfl⟩ := findList_eq_some h
  refine ⟨a, b, rfl, rfl, ?_, ?_, ?_⟩
  · rw [List.append_assoc, sliceTo_byteLen]
  · rw [List.append_assoc, sliceFrom_byteLen]
  · rw [← byteLen_append, sliceFrom_byteLen]

/-- The first occurrence of a character. -/
theorem findList_singleton_append {c : Char} {a : Text} (h : c ∉ a) (b : Text) :
    findList [c] (a ++ c :: b) = some (byteLen a) := by
  induction a with
  | nil => simp [findList]
  | cons d a ih =>
    rw [List.mem_cons, not_or] at h
    have hp : ¬ [c] <+: d :: (a ++ c :: b) := by simp [h.1]
    rw [List.cons_append, findList, if_neg hp, ih h.2]
    rfl

theorem rfind_eq_none {c : Char} {t : Text} : rfind c t = none ↔ c ∉ t := by
  induction t with
  | nil => simp [rfind]
  | cons d t ih =>
    unfold rfind
    cases h : rfind c t with
    | some i =>
      have hmem : c ∈ t := by
        by_contra hn
        rw [ih.mpr hn] at h
        cases h
      simp [hmem]
    | none =>
      have hmem := ih.mp h
      by_cases hd : d = c <;> simp [hd, hmem, Ne.symm]

/-- What a search from the end finds. -/
theorem rfind_eq_some {c : Char} {t : Text} {i : ℕ} (h : rfind c t = some i) :
    ∃ a b, t = a ++ c :: b ∧ c ∉ b ∧ sliceTo t i = some a := by
  suffices hs : ∃ a b, t = a ++ c :: b ∧ c ∉ b ∧ byteLen a = i by
    obtain ⟨a, b, rfl, hb, rfl⟩ := hs
    exact ⟨a, b, rfl, hb, sliceTo_byteLen a _⟩
  induction t generalizing i with
  | nil => cases h
  | cons d t ih =>
    unfold rfind at h
    cases ht : rfind c t with
    | some j =>
      rw [ht] at h
      obtain ⟨a, b, rfl, hb, rfl⟩ := ih ht
      cases h
      exact ⟨d :: a, b, rfl, hb, rfl⟩
    | none =>
      rw [ht] at h
      simp only [Option.ite_none_right_eq_some, Option.some.injEq] at h
      obtain ⟨rfl, rfl⟩ := h
      exact ⟨[], t, rfl, rfind_eq_none.mp ht, rfl⟩

/-! ## White space -/

/-- The characters with the property `White_Space`. -/
def isWhitespace (c : Char) : Bool :=
  let n := c.toNat
  9 ≤ n ∧ n ≤ 13 ∨ n = 0x20 ∨ n = 0x85 ∨ n = 0xA0 ∨ n = 0x1680 ∨ 0x2000 ≤ n ∧ n ≤ 0x200A ∨
    n = 0x2028 ∨ n = 0x2029 ∨ n = 0x202F ∨ n = 0x205F ∨ n = 0x3000

/-- `t.trim_start()`. -/
def trimStart (t : Text) : Text := t.dropWhile isWhitespace

/-- `t.trim_end()`. -/
def trimEnd (t : Text) : Text := t.rdropWhile isWhitespace

/-- `t.trim()`. -/
def trim (t : Text) : Text := trimEnd (trimStart t)

/-- `t.trim_start_matches(c)`. -/
def trimStartMatches (c : Char) (t : Text) : Text := t.dropWhile (· = c)

/-- `t.trim_matches(c)`. -/
def trimMatches (c : Char) (t : Text) : Text := (t.dropWhile (· = c)).rdropWhile (· = c)

/-- A text of white space only. -/
def Blank (t : Text) : Prop := ∀ c ∈ t, isWhitespace c = true

instance (t : Text) : Decidable (Blank t) :=
  List.decidableBAll (fun c => isWhitespace c = true) t

theorem trimStart_eq_nil {t : Text} : trimStart t = [] ↔ Blank t := List.dropWhile_eq_nil_iff

theorem trimEnd_eq_nil {t : Text} : trimEnd t = [] ↔ Blank t := List.rdropWhile_eq_nil_iff

theorem trim_parts (t : Text) : trim t <+: trimStart t ∧ trimStart t <:+ t :=
  ⟨List.rdropWhile_prefix _ _, List.dropWhile_suffix _⟩

theorem infix_trimMatches (c : Char) (t : Text) : trimMatches c t <:+: t :=
  (List.rdropWhile_prefix _ _).isInfix.trans (List.dropWhile_suffix _).isInfix

theorem infix_trim (t : Text) : trim t <:+: t :=
  (trim_parts t).1.isInfix.trans (trim_parts t).2.isInfix

/-- A trimmed text that is not empty starts with a character that is not white space. -/
theorem head_trim {t : Text} {c : Char} {u : Text} (h : trim t = c :: u) :
    isWhitespace c = false := by
  obtain ⟨w, hw⟩ := (trim_parts t).1
  rw [h, List.cons_append] at hw
  have := List.head?_dropWhile_not isWhitespace t
  rw [trimStart] at hw
  rw [← hw] at this
  simpa using this

theorem trim_eq_nil {t : Text} : trim t = [] ↔ Blank t := by
  rw [trim, trimEnd_eq_nil]
  constructor
  · intro h
    by_contra hn
    obtain ⟨c, u, hs⟩ := List.exists_cons_of_ne_nil (mt trimStart_eq_nil.mp hn)
    have hc := h c (by simp [hs])
    have hhead := List.head?_dropWhile_not isWhitespace t
    rw [← trimStart, hs] at hhead
    simp [hc] at hhead
  · intro h c hc
    rw [trimStart_eq_nil.mpr h] at hc
    cases hc

theorem trimStart_of_head {c : Char} (t : Text) (hc : isWhitespace c = false) :
    trimStart (c :: t) = c :: t := by
  rw [trimStart, List.dropWhile_cons_of_neg (by simp [hc])]

/-- Trimming keeps a first character that is not white space. -/
theorem trim_cons {c : Char} (t : Text) (hc : isWhitespace c = false) :
    trim (c :: t) <+: c :: t ∧ ∃ u, trim (c :: t) = c :: u := by
  have hpre : trim (c :: t) <+: c :: t := by
    have h := (trim_parts (c :: t)).1
    rwa [trimStart_of_head t hc] at h
  have hne : trim (c :: t) ≠ [] := fun h => by
    rw [trim_eq_nil] at h
    rw [h c List.mem_cons_self] at hc
    cases hc
  obtain ⟨d, u, hu⟩ := List.exists_cons_of_ne_nil hne
  refine ⟨hpre, u, ?_⟩
  rw [hu, List.cons_prefix_cons] at hpre
  rw [hu, hpre.1]

theorem trimStart_trim (t : Text) : trimStart (trim t) = trim t := by
  cases h : trim t with
  | nil => rfl
  | cons c u => exact trimStart_of_head u (head_trim h)

@[simp] theorem trim_trim (t : Text) : trim (trim t) = trim t := by
  rw [trim, trimStart_trim, trim, trimEnd, trimEnd, List.rdropWhile_idempotent]

theorem trim_cons_of_isWhitespace {c : Char} (t : Text) (hc : isWhitespace c = true) :
    trim (c :: t) = trim t := by
  rw [trim, trim, trimStart, List.dropWhile_cons_of_pos hc, trimStart]

/-! ## Lines -/

/-- A line without the carriage return before its line feed. -/
def chomp (l : Text) : Text := if l.getLast? = some '\r' then l.dropLast else l

/-- `t.lines()`: a last line without line feed counts, and keeps a carriage return. -/
def lines : Text → List Text
  | [] => []
  | '\n' :: t => [] :: lines t
  | '\r' :: '\n' :: t => [] :: lines t
  | c :: t =>
    match lines t with
    | [] => [[c]]
    | l :: ls => (c :: l) :: ls

/-- `ls.join(sep)`. -/
def join (sep : String) (ls : List Text) : Text := List.intercalate sep.toList ls

theorem notMem_of_mem_lines {t l : Text} (h : l ∈ lines t) : '\n' ∉ l := by
  fun_induction lines t generalizing l with
  | case1 => cases h
  | case2 t ih =>
    rcases List.mem_cons.mp h with rfl | h
    · exact List.not_mem_nil
    · exact ih h
  | case3 t ih =>
    rcases List.mem_cons.mp h with rfl | h
    · exact List.not_mem_nil
    · exact ih h
  | case4 c t hn hr hnil ih =>
    rw [List.mem_singleton] at h
    subst h
    intro hmem
    rw [List.mem_singleton] at hmem
    exact hn hmem.symm
  | case5 c t hn hr l' ls hls ih =>
    rcases List.mem_cons.mp h with rfl | h
    · rw [List.mem_cons, not_or]
      exact ⟨fun e => hn e.symm, ih (by rw [hls]; exact List.mem_cons_self)⟩
    · exact ih (by rw [hls]; exact List.mem_cons_of_mem _ h)

/-- A line that ends with a line feed is read alone. -/
theorem lines_append {l : Text} (hl : '\n' ∉ l) (t : Text) :
    lines (l ++ '\n' :: t) = chomp l :: lines t := by
  induction l with
  | nil => simp [lines, chomp]
  | cons c l ih =>
    rw [List.mem_cons, not_or] at hl
    have ih := ih hl.2
    cases l with
    | nil =>
      by_cases hc : c = '\r'
      · subst hc
        simp [lines, chomp]
      · rw [List.cons_append, lines]
        · simp [lines, chomp, hc]
        · exact fun e => hl.1 e.symm
        · exact fun t' e => absurd e hc
    | cons d l =>
      rw [List.cons_append, lines]
      · rw [ih]
        by_cases hlast : (d :: l).getLast? = some '\r'
        · simp [chomp, hlast, List.getLast?_cons_cons]
        · simp [chomp, hlast, List.getLast?_cons_cons]
      · exact fun e => hl.1 e.symm
      · intro t' _ e
        rw [List.cons_append, List.cons.injEq] at e
        rw [List.mem_cons, not_or] at hl
        exact hl.2.1 e.1.symm

/-- A text is a line, or a line, a line feed and a text. -/
theorem line_induction {P : Text → Prop} (last : ∀ t, '\n' ∉ t → P t)
    (line : ∀ a b, '\n' ∉ a → P b → P (a ++ '\n' :: b)) : ∀ t, P t :=
  Separators.part_induction last line

theorem prefix_chomp (l : Text) : chomp l <+: l := by
  unfold chomp
  split_ifs
  · exact List.dropLast_prefix l
  · exact List.prefix_rfl

@[simp] theorem startsWith_chomp {l : Text} {pat : String} (hpat : '\r' ∉ pat.toList) :
    startsWith (chomp l) pat ↔ startsWith l pat := by
  refine ⟨fun h => startsWith_mono h (prefix_chomp l), fun h => ?_⟩
  unfold chomp
  split_ifs with hr
  · obtain ⟨u, rfl⟩ := h
    rcases List.eq_nil_or_concat u with rfl | ⟨v, c, rfl⟩
    · rw [List.append_nil] at hr
      exact absurd (List.mem_of_getLast? hr) hpat
    · rw [List.concat_eq_append, ← List.append_assoc, List.dropLast_concat]
      exact List.prefix_append _ _
  · exact h

theorem chomp_of_getLast? {l : Text} (h : l.getLast? ≠ some '\r') : chomp l = l := if_neg h

theorem chomp_cons (c : Char) {t : Text} (ht : t ≠ []) : chomp (c :: t) = c :: chomp t := by
  obtain ⟨d, u, rfl⟩ := List.exists_cons_of_ne_nil ht
  unfold chomp
  rw [List.getLast?_cons_cons]
  split_ifs <;> rfl

theorem head?_chomp {c : Char} (hc : c ≠ '\r') (t : Text) : (chomp (c :: t)).head? = some c := by
  cases t with
  | nil => rw [chomp_of_getLast? (by simpa using hc), List.head?_cons]
  | cons d t => rw [chomp_cons c (List.cons_ne_nil d t), List.head?_cons]

theorem lines_of_notMem {t : Text} (h : '\n' ∉ t) (hne : t ≠ []) : lines t = [t] := by
  induction t with
  | nil => exact absurd rfl hne
  | cons c t ih =>
    rw [List.mem_cons, not_or] at h
    rw [lines]
    · cases t with
      | nil => rfl
      | cons d t => rw [ih h.2 (List.cons_ne_nil _ _)]
    · exact fun e => h.1 e.symm
    · intro t' _ e
      rw [e] at h
      exact h.2 List.mem_cons_self

theorem lines_eq_nil_iff {t : Text} : lines t = [] ↔ t = [] := by
  refine ⟨fun h => ?_, fun h => h ▸ rfl⟩
  induction t using line_induction with
  | last t ht =>
    by_contra hne
    rw [lines_of_notMem ht hne] at h
    cases h
  | line a b ha ih =>
    rw [lines_append ha] at h
    cases h

theorem lines_line {l : Text} (hl : '\n' ∉ l) : lines (l ++ ['\n']) = [chomp l] :=
  lines_append hl []

/-- A text that ends with a line feed is read before what follows. -/
theorem lines_append_cons (t rest : Text) :
    lines (t ++ '\n' :: rest) = lines (t ++ ['\n']) ++ lines rest := by
  induction t using line_induction with
  | last t ht => rw [lines_append ht, lines_line ht, List.singleton_append]
  | line a b ha ih =>
    rw [List.append_assoc, List.cons_append, lines_append ha, ih, List.append_assoc,
      List.cons_append, lines_append ha, List.cons_append]

/-- A text whose last line is ended. -/
def EndsLine (t : Text) : Prop := ∀ c ∈ t.getLast?, c = '\n'

instance (t : Text) : Decidable (EndsLine t) :=
  Option.decidableForallMem t.getLast?

theorem endsLine_nil : EndsLine [] := fun c hc => by cases hc

theorem EndsLine.append_left {b : Text} (hb : EndsLine b) (hne : b ≠ []) (a : Text) :
    EndsLine (a ++ b) := by
  intro c hc
  rw [List.getLast?_append_of_ne_nil _ hne] at hc
  exact hb c hc

theorem EndsLine.append {a b : Text} (ha : EndsLine a) (hb : EndsLine b) : EndsLine (a ++ b) := by
  by_cases hne : b = []
  · rwa [hne, List.append_nil]
  · exact hb.append_left hne a

theorem endsLine_flatMap {α : Type} {f : α → Text} {xs : List α} (h : ∀ x ∈ xs, EndsLine (f x)) :
    EndsLine (xs.flatMap f) := by
  induction xs with
  | nil => exact endsLine_nil
  | cons x xs ih =>
    exact (h x List.mem_cons_self).append (ih fun y hy => h y (List.mem_cons_of_mem _ hy))

theorem EndsLine.lines_append {a : Text} (ha : EndsLine a) (b : Text) :
    lines (a ++ b) = lines a ++ lines b := by
  rcases List.eq_nil_or_concat a with rfl | ⟨t, c, rfl⟩
  · rfl
  · rw [List.concat_eq_append] at ha ⊢
    obtain rfl : c = '\n' := ha c (by simp)
    rw [List.append_assoc, List.singleton_append, lines_append_cons]

theorem lines_flatMap {α : Type} {f : α → Text} {xs : List α} (h : ∀ x ∈ xs, EndsLine (f x)) :
    lines (xs.flatMap f) = xs.flatMap fun x => lines (f x) := by
  induction xs with
  | nil => rfl
  | cons x xs ih =>
    rw [List.flatMap_cons, List.flatMap_cons, (h x List.mem_cons_self).lines_append,
      ih fun y hy => h y (List.mem_cons_of_mem _ hy)]

theorem getLast?_ne_of_trim {t : Text} (h : trim t = t) {c : Char} (hc : isWhitespace c = true) :
    t.getLast? ≠ some c := by
  intro hlast
  have hend : (trimStart t).rdropWhile isWhitespace = t := h
  have hne : (trimStart t).rdropWhile isWhitespace ≠ [] := by
    rw [hend]
    rintro rfl
    cases hlast
  have hnot := List.rdropWhile_last_not isWhitespace (trimStart t) hne
  have hc' : ((trimStart t).rdropWhile isWhitespace).getLast hne = c := by
    rw [List.getLast_eq_iff_getLast?_eq_some, hend, hlast]
  rw [hc'] at hnot
  exact hnot hc

/-- A trimmed text is read alone when a line feed follows. -/
theorem lines_append_of_trim {t : Text} (h : trim t = t) (hne : t ≠ []) :
    lines (t ++ ['\n']) = lines t := by
  have hnl := getLast?_ne_of_trim h (c := '\n') (by decide)
  have hcr := getLast?_ne_of_trim h (c := '\r') (by decide)
  clear h
  induction t using line_induction with
  | last t ht => rw [lines_line ht, chomp_of_getLast? hcr, lines_of_notMem ht hne]
  | line a b ha ih =>
    rcases List.eq_nil_or_concat b with rfl | ⟨u, c, rfl⟩
    · simp at hnl
    · rw [List.concat_eq_append] at *
      have hlast : (a ++ '\n' :: (u ++ [c])).getLast? = (u ++ [c]).getLast? := by
        rw [← List.cons_append, ← List.append_assoc, List.getLast?_concat, List.getLast?_concat]
      rw [List.append_assoc, List.cons_append, lines_append ha, lines_append ha,
        ih (by simp) (by rwa [hlast] at hnl) (by rwa [hlast] at hcr)]

/-- A line stands at the start of the text, or after a line feed. -/
theorem mem_lines {t l : Text} (h : l ∈ lines t) :
    l <+: t ∨ ∃ u v, t = u ++ '\n' :: (l ++ v) := by
  induction t using line_induction with
  | last t ht =>
    by_cases hne : t = []
    · rw [hne] at h
      cases h
    · rw [lines_of_notMem ht hne, List.mem_singleton] at h
      exact .inl (h ▸ List.prefix_rfl)
  | line a b ha ih =>
    rw [lines_append ha, List.mem_cons] at h
    rcases h with rfl | h
    · exact .inl ((prefix_chomp a).trans (List.prefix_append _ _))
    · refine .inr ?_
      rcases ih h with ⟨v, rfl⟩ | ⟨u, v, rfl⟩
      · exact ⟨a, v, rfl⟩
      · exact ⟨a ++ '\n' :: u, v, by simp⟩

theorem mem_tail_lines {t l : Text} (h : l ∈ (lines t).tail) :
    ∃ u v, t = u ++ '\n' :: (l ++ v) := by
  induction t using line_induction with
  | last t ht =>
    by_cases hne : t = []
    · rw [hne] at h
      cases h
    · rw [lines_of_notMem ht hne] at h
      cases h
  | line a b ha ih =>
    rw [lines_append ha, List.tail_cons] at h
    rcases mem_lines h with ⟨v, rfl⟩ | ⟨u, v, rfl⟩
    · exact ⟨a, v, rfl⟩
    · exact ⟨a ++ '\n' :: u, v, by simp⟩

@[simp] theorem join_cons_cons (a b : Text) (ls : List Text) :
    join "\n" (a :: b :: ls) = a ++ '\n' :: join "\n" (b :: ls) := rfl

theorem notMem_join {c : Char} {sep : String} (hsep : c ∉ sep.toList) {ls : List Text}
    (hls : ∀ l ∈ ls, c ∉ l) : c ∉ join sep ls := by
  induction ls with
  | nil => exact List.not_mem_nil
  | cons a ls ih =>
    obtain ⟨ha, hls⟩ := List.forall_mem_cons.mp hls
    cases ls with
    | nil =>
      have hjoin : join sep [a] = a := List.append_nil a
      rwa [hjoin]
    | cons b ls =>
      change c ∉ a ++ (sep.toList ++ join sep (b :: ls))
      simp only [List.mem_append, not_or]
      exact ⟨ha, hsep, ih hls⟩

theorem blank_join {ls : List Text} : Blank (join "\n" ls) ↔ ∀ l ∈ ls, Blank l := by
  induction ls with
  | nil => exact iff_of_true (fun _ h => by cases h) (fun _ h => by cases h)
  | cons a ls ih =>
    cases ls with
    | nil =>
      have hjoin : join "\n" [a] = a := List.append_nil a
      rw [hjoin, List.forall_mem_singleton]
    | cons b ls =>
      have hnl : isWhitespace '\n' = true := by decide
      rw [List.forall_mem_cons, ← ih, join_cons_cons]
      simp only [Blank, List.forall_mem_append, List.forall_mem_cons, hnl, true_and]

/-- Joined lines are read one by one. -/
theorem lines_join {ls : List Text} (hls : ∀ l ∈ ls, '\n' ∉ l) (hne : ls ≠ []) :
    lines (join "\n" ls ++ ['\n']) = ls.map chomp := by
  induction ls with
  | nil => exact absurd rfl hne
  | cons a ls ih =>
    have ha := hls a List.mem_cons_self
    cases ls with
    | nil =>
      have hjoin : join "\n" [a] = a := List.append_nil a
      rw [hjoin, lines_line ha]
      rfl
    | cons b ls =>
      rw [join_cons_cons, List.append_assoc, List.cons_append, lines_append ha,
        ih (fun l hl => hls l (List.mem_cons_of_mem _ hl)) (List.cons_ne_nil _ _)]
      rfl

/-- A text without line feed at the start of joined lines stands at the start of the first. -/
theorem prefix_of_prefix_join {a l : Text} {ls : List Text} (hl : '\n' ∉ l)
    (h : l <+: join "\n" (a :: ls)) : l <+: a := by
  cases ls with
  | nil =>
    have hjoin : join "\n" [a] = a := List.append_nil a
    rwa [hjoin] at h
  | cons b ls =>
    rw [join_cons_cons] at h
    rcases List.prefix_or_prefix_of_prefix h (List.prefix_append a _) with h' | ⟨u, rfl⟩
    · exact h'
    · rw [List.prefix_append_right_inj] at h
      cases u with
      | nil => exact (List.append_nil a).symm ▸ List.prefix_rfl
      | cons c u =>
        rw [List.cons_prefix_cons] at h
        exact absurd (by simp [h.1]) hl

/-- What stands after a line feed of joined lines, up to the next, is the start of one of them. -/
theorem exists_prefix_of_join {ls : List Text} (hls : ∀ l ∈ ls, '\n' ∉ l) {x l w : Text}
    (hl : '\n' ∉ l) (h : join "\n" ls = x ++ '\n' :: (l ++ w)) : ∃ l' ∈ ls, l <+: l' := by
  induction ls generalizing x with
  | nil => simp [join] at h
  | cons a ls ih =>
    have ha := hls a List.mem_cons_self
    cases ls with
    | nil =>
      have hjoin : join "\n" [a] = a := List.append_nil a
      rw [hjoin] at h
      exact absurd (by simp [h]) ha
    | cons b ls =>
      rw [join_cons_cons] at h
      have hhead : join "\n" (b :: ls) = l ++ w → ∃ l' ∈ a :: b :: ls, l <+: l' := fun hj =>
        ⟨b, by simp, prefix_of_prefix_join hl (hj ▸ List.prefix_append l w)⟩
      rcases List.append_eq_append_iff.mp h with ⟨c, rfl, hc⟩ | ⟨c, rfl, hc⟩
      · cases c with
        | nil => exact hhead (List.cons.inj hc).2
        | cons d c =>
          obtain ⟨rfl, hc'⟩ := List.cons.inj hc
          obtain ⟨l', hl', hpre⟩ := ih (fun l hl => hls l (List.mem_cons_of_mem _ hl)) hc'
          exact ⟨l', List.mem_cons_of_mem _ hl', hpre⟩
      · cases c with
        | nil => exact hhead (List.cons.inj hc).2.symm
        | cons d c =>
          obtain ⟨rfl, -⟩ := List.cons.inj hc
          exact absurd (by simp) ha

/-- Every line but the first of a trimmed join is the start of a joined line. -/
theorem exists_of_mem_tail_trim_join {ls : List Text} (hls : ∀ l ∈ ls, '\n' ∉ l) {l : Text}
    (h : l ∈ (lines (trim (join "\n" ls))).tail) : ∃ l' ∈ ls, l <+: l' := by
  obtain ⟨u, v, huv⟩ := mem_tail_lines h
  obtain ⟨a, b, hab⟩ := infix_trim (join "\n" ls)
  have hl := notMem_of_mem_lines (List.mem_of_mem_tail h)
  refine exists_prefix_of_join hls (x := a ++ u) (w := v ++ b) hl ?_
  rw [← hab, huv]
  simp

/-! ## Inked lines -/

theorem trimEnd_append_of_blank (t : Text) {w : Text} (hw : Blank w) :
    trimEnd (t ++ w) = trimEnd t := by
  have hnil : w.rdropWhile isWhitespace = [] := trimEnd_eq_nil.mpr hw
  exact Separators.rdropWhile_append_of_eq_nil hnil t

theorem trim_append_of_blank (t : Text) {w : Text} (hw : Blank w) : trim (t ++ w) = trim t := by
  induction t with
  | nil => rw [List.nil_append, trim_eq_nil.mpr hw, trim_eq_nil.mpr fun _ h => by cases h]
  | cons c t ih =>
    by_cases hc : isWhitespace c = true
    · rw [List.cons_append, trim_cons_of_isWhitespace _ hc, trim_cons_of_isWhitespace _ hc, ih]
    · have hc : isWhitespace c = false := Bool.eq_false_iff.mpr hc
      rw [trim, trim, List.cons_append, trimStart_of_head _ hc, trimStart_of_head _ hc,
        ← List.cons_append, trimEnd_append_of_blank _ hw]

theorem trim_append_of_blank_left {w : Text} (hw : Blank w) (t : Text) : trim (w ++ t) = trim t := by
  induction w with
  | nil => rfl
  | cons c w ih =>
    rw [List.cons_append, trim_cons_of_isWhitespace _ (hw c List.mem_cons_self)]
    exact ih fun d hd => hw d (List.mem_cons_of_mem _ hd)

/-- A text is white space, its trimmed text, and white space. -/
theorem exists_blank_trim (t : Text) : ∃ u v, t = u ++ trim t ++ v ∧ Blank u ∧ Blank v := by
  refine ⟨t.takeWhile isWhitespace, (trimStart t).rtakeWhile isWhitespace, ?_, ?_, ?_⟩
  · rw [List.append_assoc, trim, trimEnd, List.rdropWhile_append_rtakeWhile, trimStart,
      List.takeWhile_append_dropWhile]
  · exact fun c hc => List.mem_takeWhile_imp hc
  · exact fun c hc => List.mem_rtakeWhile_imp hc

/-- The lines of a text that are not blank, trimmed. -/
def inkedLines (t : Text) : List Text := ((t.splitOn '\n').map trim).filter (· ≠ [])

theorem inkedLines_of_notMem {t : Text} (h : '\n' ∉ t) :
    inkedLines t = [trim t].filter (· ≠ []) := by
  rw [inkedLines, List.splitOn_eq_singleton h, List.map_singleton]

theorem inkedLines_append {a : Text} (ha : '\n' ∉ a) (b : Text) :
    inkedLines (a ++ '\n' :: b) = inkedLines a ++ inkedLines b := by
  rw [inkedLines_of_notMem ha, inkedLines, List.splitOn_append_cons_self_of_not_mem ha,
    List.map_cons, ← List.singleton_append, List.filter_append]
  rfl

theorem inkedLines_blank {w : Text} (hw : Blank w) : inkedLines w = [] := by
  induction w using line_induction with
  | last t ht => rw [inkedLines_of_notMem ht, trim_eq_nil.mpr hw]; rfl
  | line a b ha ih =>
    rw [inkedLines_append ha, ih fun c hc => hw c (by simp [hc]), inkedLines_of_notMem ha,
      trim_eq_nil.mpr fun c hc => hw c (by simp [hc])]
    rfl

theorem inkedLines_append_of_blank (t : Text) {w : Text} (hw : Blank w) :
    inkedLines (t ++ w) = inkedLines t := by
  induction t using line_induction with
  | last t ht =>
    by_cases hmem : '\n' ∈ w
    · obtain ⟨a, b, rfl, ha⟩ := List.eq_append_cons_of_mem hmem
      have hta : '\n' ∉ t ++ a := by simp [ht, ha]
      have hablank : Blank a := fun c hc => hw c (by simp [hc])
      have hbblank : Blank b := fun c hc => hw c (by simp [hc])
      rw [← List.append_assoc, inkedLines_append hta, inkedLines_blank hbblank, List.append_nil,
        inkedLines_of_notMem hta, inkedLines_of_notMem ht, trim_append_of_blank t hablank]
    · have htw : '\n' ∉ t ++ w := by simp [ht, hmem]
      rw [inkedLines_of_notMem htw, inkedLines_of_notMem ht, trim_append_of_blank t hw]
  | line a b ha ih => rw [List.append_assoc, List.cons_append, inkedLines_append ha,
      inkedLines_append ha, ih]

theorem inkedLines_append_of_blank_left {w : Text} (hw : Blank w) (t : Text) :
    inkedLines (w ++ t) = inkedLines t := by
  induction w using line_induction with
  | last w hnl =>
    by_cases hmem : '\n' ∈ t
    · obtain ⟨a, b, rfl, ha⟩ := List.eq_append_cons_of_mem hmem
      have hwa : '\n' ∉ w ++ a := by simp [hnl, ha]
      rw [← List.append_assoc, inkedLines_append hwa, inkedLines_append ha,
        inkedLines_of_notMem hwa, inkedLines_of_notMem ha, trim_append_of_blank_left hw]
    · have hwt : '\n' ∉ w ++ t := by simp [hnl, hmem]
      rw [inkedLines_of_notMem hwt, inkedLines_of_notMem hmem, trim_append_of_blank_left hw]
  | line a b ha ih =>
    rw [List.append_assoc, List.cons_append, inkedLines_append ha,
      inkedLines_blank fun c hc => hw c (by simp [hc]), ih fun c hc => hw c (by simp [hc])]
    rfl

/-- Trimming a text leaves its inked lines. -/
theorem inkedLines_trim (t : Text) : inkedLines (trim t) = inkedLines t := by
  obtain ⟨u, v, ht, hu, hv⟩ := exists_blank_trim t
  conv_rhs => rw [ht]
  rw [inkedLines_append_of_blank _ hv, inkedLines_append_of_blank_left hu]

theorem inkedLines_join {ls : List Text} (hls : ∀ l ∈ ls, '\n' ∉ l) :
    inkedLines (join "\n" ls) = (ls.map trim).filter (· ≠ []) := by
  induction ls with
  | nil => rfl
  | cons a ls ih =>
    obtain ⟨ha, hls⟩ := List.forall_mem_cons.mp hls
    cases ls with
    | nil =>
      have hjoin : join "\n" [a] = a := List.append_nil a
      rw [hjoin, inkedLines_of_notMem ha]
      rfl
    | cons b ls =>
      rw [join_cons_cons, inkedLines_append ha, ih hls, inkedLines_of_notMem ha, ← List.filter_append]
      rfl

theorem join_append {ls ls' : List Text} (hne : ls ≠ []) (hne' : ls' ≠ []) :
    join "\n" (ls ++ ls') = join "\n" ls ++ '\n' :: join "\n" ls' := by
  induction ls with
  | nil => exact absurd rfl hne
  | cons a ls ih =>
    cases ls with
    | nil =>
      obtain ⟨b, ls', rfl⟩ := List.exists_cons_of_ne_nil hne'
      have hjoin : join "\n" [a] = a := List.append_nil a
      rw [hjoin]
      exact join_cons_cons a b ls'
    | cons b ls =>
      rw [join_cons_cons, List.append_assoc]
      exact congrArg (fun text => a ++ '\n' :: text) (ih (List.cons_ne_nil _ _))

/-- Blank lines at the end of joined lines are trimmed. -/
theorem trim_join_append (ls : List Text) {blank : List Text} (h : ∀ l ∈ blank, Blank l) :
    trim (join "\n" (ls ++ blank)) = trim (join "\n" ls) := by
  rcases eq_or_ne ls [] with rfl | hls
  · rw [List.nil_append, trim_eq_nil.mpr (blank_join.mpr h)]
    rfl
  rcases eq_or_ne blank [] with rfl | hblank
  · rw [List.append_nil]
  · have hnl : Blank ('\n' :: join "\n" blank) :=
      List.forall_mem_cons.mpr ⟨by decide, blank_join.mpr h⟩
    rw [join_append hls hblank, trim_append_of_blank _ hnl]

/-! ## Decimal numbers -/

/-- The decimal digits of a number. -/
def ofNat (n : ℕ) : Text := Nat.toDigits 10 n

/-- A text of decimal digits only. -/
def Digits (t : Text) : Prop := ∀ c ∈ t, c.isDigit = true

instance (t : Text) : Decidable (Digits t) := List.decidableBAll (fun c : Char => c.isDigit = true) t

/-- The number written by decimal digits, when it has 32 bits. -/
def parseDigits (digits : Text) : Option UInt32 :=
  let n := Nat.ofDigitChars 10 digits 0
  if h : digits ≠ [] ∧ Digits digits ∧ n < 2 ^ 32 then
    some (UInt32.ofNatLT n h.2.2)
  else none

/-- `t.parse::<u32>()`; the reason of a failure is not kept. -/
def parseU32 (t : Text) : Option UInt32 := parseDigits ((stripPrefix t "+").getD t)

theorem isDigit_of_mem_ofNat {n : ℕ} {c : Char} (h : c ∈ ofNat n) : c.isDigit = true :=
  Nat.isDigit_of_mem_toDigits (by decide) (by decide) h

theorem notMem_ofNat {c : Char} (hc : c.isDigit = false) (n : ℕ) : c ∉ ofNat n := by
  intro h
  rw [isDigit_of_mem_ofNat h] at hc
  cases hc

theorem toNat_of_isDigit {c : Char} (h : c.isDigit = true) : 48 ≤ c.toNat ∧ c.toNat ≤ 57 := by
  unfold Char.isDigit at h
  simp only [ge_iff_le, Bool.and_eq_true, decide_eq_true_eq, UInt32.le_iff_toNat_le] at h
  exact h

theorem isWhitespace_of_isDigit {c : Char} (h : c.isDigit = true) : isWhitespace c = false := by
  have hrange := toNat_of_isDigit h
  unfold isWhitespace
  simp only [decide_eq_false_iff_not]
  omega

theorem toLower_of_isDigit {c : Char} (h : c.isDigit = true) : c.toLower = c := by
  have hrange := toNat_of_isDigit h
  unfold Char.toLower
  rw [dif_neg]
  intro hupper
  simp only [ge_iff_le, UInt32.le_iff_toNat_le] at hupper
  have hlow : 65 ≤ c.toNat := hupper.1
  omega

theorem ofNat_ne_nil (n : ℕ) : ofNat n ≠ [] := Nat.toDigits_ne_nil

theorem ofNat_injective : Function.Injective ofNat := fun a b h => by
  have := congrArg (Nat.ofDigitChars 10 · 0) h
  simpa [ofNat, Nat.ofDigitChars_ten_toDigits] using this

/-- The digits of a number have no sign. -/
theorem stripPrefix_ofNat (n : ℕ) : stripPrefix (ofNat n) "+" = none := by
  rw [Option.eq_none_iff_forall_ne_some]
  intro rest h
  rw [stripPrefix_eq_some] at h
  have := isDigit_of_mem_ofNat (n := n) (c := '+') (by simp [h])
  exact absurd this (by decide)

@[simp] theorem parseU32_ofNat (n : UInt32) : parseU32 (ofNat n.toNat) = some n := by
  have hval : Nat.ofDigitChars 10 (ofNat n.toNat) 0 = n.toNat := Nat.ofDigitChars_ten_toDigits
  rw [parseU32, stripPrefix_ofNat, Option.getD_none, parseDigits, dif_pos]
  · simp [hval]
  · rw [hval]
    exact ⟨ofNat_ne_nil _, fun c => isDigit_of_mem_ofNat, n.toNat_lt⟩

/-! ## Words -/

/-- A part without white space. -/
def IsWord (w : Text) : Prop := w ≠ [] ∧ ∀ c ∈ w, isWhitespace c = false

theorem trim_word {w : Text} (h : IsWord w) : trim w = w := by
  obtain ⟨hne, hword⟩ := h
  have hstart : trimStart w = w := by
    cases w with
    | nil => exact absurd rfl hne
    | cons c t => exact trimStart_of_head t (hword c List.mem_cons_self)
  rw [trim, hstart]
  exact List.rdropWhile_eq_self_iff.mpr fun hl => by simp [hword _ (List.getLast_mem hl)]

theorem isWord_ofNat (n : ℕ) : IsWord (ofNat n) :=
  ⟨ofNat_ne_nil n, fun _ hc => isWhitespace_of_isDigit (isDigit_of_mem_ofNat hc)⟩

/-- `t.split_whitespace()`. -/
def splitWhitespace (t : Text) : List Text := (t.splitOnP isWhitespace).filter (· ≠ [])

theorem isWhitespace_of_mem_splitOnP {t w : Text} (h : w ∈ t.splitOnP isWhitespace) :
    ∀ c ∈ w, isWhitespace c = false := by
  induction t generalizing w with
  | nil =>
    rw [List.splitOnP_nil, List.mem_singleton] at h
    rw [h]
    exact nofun
  | cons c t ih =>
    rw [List.splitOnP_cons_eq_if_modifyHead] at h
    split_ifs at h with hc
    · rcases List.mem_cons.mp h with rfl | h
      · exact nofun
      · exact ih h
    · cases hs : t.splitOnP isWhitespace with
      | nil => exact absurd hs (List.splitOnP_ne_nil _ _)
      | cons v vs =>
        rw [hs] at h ih
        rcases List.mem_cons.mp h with rfl | h
        · intro d hd
          rcases List.mem_cons.mp hd with rfl | hd
          · exact Bool.eq_false_iff.mpr hc
          · exact ih List.mem_cons_self d hd
        · exact ih (List.mem_cons_of_mem _ h)

theorem isWord_of_mem_splitWhitespace {t w : Text} (h : w ∈ splitWhitespace t) : IsWord w := by
  obtain ⟨hmem, hne⟩ := List.mem_filter.mp h
  exact ⟨of_decide_eq_true hne, isWhitespace_of_mem_splitOnP hmem⟩

theorem splitWhitespace_word {w : Text} (h : IsWord w) : splitWhitespace w = [w] := by
  rw [splitWhitespace, List.splitOnP_eq_singleton h.2, List.filter_cons_of_pos (by simpa using h.1),
    List.filter_nil]

/-- White space ends a word. -/
theorem splitWhitespace_append_cons (t u : Text) {c : Char} (hc : isWhitespace c = true) :
    splitWhitespace (t ++ c :: u) = splitWhitespace t ++ splitWhitespace u := by
  unfold splitWhitespace
  rw [List.splitOnP_append_cons _ _ hc, List.filter_append]

theorem splitWhitespace_trimStart (t : Text) :
    splitWhitespace (trimStart t) = splitWhitespace t := by
  unfold trimStart
  induction t with
  | nil => rfl
  | cons c t ih =>
    rw [List.dropWhile_cons]
    split_ifs with hc
    · exact ih.trans (splitWhitespace_append_cons [] t hc).symm
    · rfl

theorem splitWhitespace_trimEnd (t : Text) :
    splitWhitespace (trimEnd t) = splitWhitespace t := by
  unfold trimEnd
  induction t using List.reverseRecOn with
  | nil => rfl
  | append_singleton t c ih =>
    by_cases hc : isWhitespace c = true
    · rw [List.rdropWhile_concat_pos _ _ _ hc, ih, splitWhitespace_append_cons t [] hc]
      exact (List.append_nil _).symm
    · rw [List.rdropWhile_concat_neg _ _ _ hc]

/-- White space at the ends is in no word. -/
theorem splitWhitespace_trim (t : Text) : splitWhitespace (trim t) = splitWhitespace t :=
  (splitWhitespace_trimEnd _).trans (splitWhitespace_trimStart t)

/-- Words joined by blanks are split into the same words. -/
theorem splitWhitespace_join {ws : List Text} (h : ∀ w ∈ ws, IsWord w) :
    splitWhitespace (join " " ws) = ws := by
  induction ws with
  | nil => rfl
  | cons w ws ih =>
    obtain ⟨hw, hws⟩ := List.forall_mem_cons.mp h
    cases ws with
    | nil =>
      have hjoin : join " " [w] = w := List.append_nil w
      rw [hjoin, splitWhitespace_word hw]
    | cons v vs =>
      have hjoin : join " " (w :: v :: vs) = w ++ ' ' :: join " " (v :: vs) := rfl
      have hrest := ih hws
      unfold splitWhitespace at hrest ⊢
      rw [hjoin, List.splitOnP_append_cons_of_forall_mem hw.2 ' ' (by decide),
        List.filter_cons_of_pos (by simpa using hw.1), hrest]

end Text
