import Mathlib.Data.List.Basic
import Mathlib.Data.List.Nodup
import Mathlib.Data.List.Perm.Basic
import Mathlib.Logic.Equiv.Defs
import Mathlib.Tactic.Common

/-!
# JSON values and their codecs

A codec writes the values of a type as JSON and reads them back. It carries its own contract: the
`Stable` values come back as they were written, and whatever is read is stable. So a codec is exact
(`Codec.stable_iff`), and a value that was read once survives being written and read again.

The fields of an object are written and read by `Fields`, one combinator for each way in which a
field may be absent. Groups of fields are put together by `Fields.pair` when no name is in both.
Reading depends on the values under the names of the group only (`Fields.read_congr`): the order of
the fields and fields of other names do not matter, and a name with two values is refused. A
structure is also read from an array of its fields, in the order of the group (`Fields.readSeq`).

Fractional numbers are kept as their text. An object is what its text has, with repeated keys; a
`Json.Value` is what is left of it in memory, where the last value of a key stands.
-/

inductive Json where
  | null
  | bool (b : Bool)
  | integer (n : Int)
  | decimal (text : String)
  | string (s : String)
  | array (items : List Json)
  | object (fields : List (String × Json))

namespace Json

/-- The values under a name, in order. -/
def valuesAt (name : String) (fields : List (String × Json)) : List Json :=
  (fields.filter fun field => field.1 = name).map Prod.snd

theorem valuesAt_append (name : String) (l₁ l₂ : List (String × Json)) :
    valuesAt name (l₁ ++ l₂) = valuesAt name l₁ ++ valuesAt name l₂ := by
  unfold valuesAt
  rw [List.filter_append, List.map_append]

theorem valuesAt_eq_nil (name : String) (fields : List (String × Json))
    (h : ∀ field ∈ fields, field.1 ≠ name) : valuesAt name fields = [] := by
  unfold valuesAt
  rw [List.filter_eq_nil_iff.mpr fun field hfield => by simpa using h field hfield]
  rfl

@[simp] theorem valuesAt_self (name : String) (v : Json) : valuesAt name [(name, v)] = [v] := by
  simp [valuesAt]

/-- A field of another name does not show. -/
theorem valuesAt_cons_of_ne {name key : String} (h : key ≠ name) (v : Json)
    (fields : List (String × Json)) : valuesAt name ((key, v) :: fields) = valuesAt name fields := by
  simp [valuesAt, h]

/-! ### Values in memory -/

mutual

/-- Of the values of a repeated key, the last one stands. -/
def toValue : Json → Json
  | .array items => .array (toValues items)
  | .object fields => .object (toMap fields)
  | .null => .null
  | .bool b => .bool b
  | .integer n => .integer n
  | .decimal text => .decimal text
  | .string s => .string s

def toValues : List Json → List Json
  | [] => []
  | item :: items => item.toValue :: toValues items

def toMap : List (String × Json) → List (String × Json)
  | [] => []
  | (key, v) :: fields =>
    if key ∈ fields.map Prod.fst then toMap fields else (key, v.toValue) :: toMap fields

end

theorem toMap_cons_of_mem {key : String} {fields : List (String × Json)}
    (h : key ∈ fields.map Prod.fst) (v : Json) : toMap ((key, v) :: fields) = toMap fields :=
  if_pos h

theorem toMap_cons_of_notMem {key : String} {fields : List (String × Json)}
    (h : key ∉ fields.map Prod.fst) (v : Json) :
    toMap ((key, v) :: fields) = (key, v.toValue) :: toMap fields := if_neg h

theorem fst_mem_toMap (key : String) (fields : List (String × Json)) :
    key ∈ (toMap fields).map Prod.fst ↔ key ∈ fields.map Prod.fst := by
  induction fields with
  | nil => rfl
  | cons field fields ih =>
    obtain ⟨name, v⟩ := field
    by_cases h : name ∈ fields.map Prod.fst
    · rw [toMap_cons_of_mem h, ih, List.map_cons, List.mem_cons]
      refine ⟨.inr, ?_⟩
      rintro (rfl | hmem)
      · exact h
      · exact hmem
    · rw [toMap_cons_of_notMem h, List.map_cons, List.mem_cons, ih, List.map_cons, List.mem_cons]

mutual

theorem toValue_toValue : ∀ j : Json, j.toValue.toValue = j.toValue
  | .array items => congrArg Json.array (toValues_toValues items)
  | .object fields => congrArg Json.object (toMap_toMap fields)
  | .null => rfl
  | .bool _ => rfl
  | .integer _ => rfl
  | .decimal _ => rfl
  | .string _ => rfl

theorem toValues_toValues : ∀ items : List Json, toValues (toValues items) = toValues items
  | [] => rfl
  | item :: items => congrArg₂ List.cons (toValue_toValue item) (toValues_toValues items)

theorem toMap_toMap : ∀ fields : List (String × Json), toMap (toMap fields) = toMap fields
  | [] => rfl
  | (key, v) :: fields => by
    by_cases h : key ∈ fields.map Prod.fst
    · rw [toMap_cons_of_mem h, toMap_toMap fields]
    · rw [toMap_cons_of_notMem h, toMap_cons_of_notMem (mt (fst_mem_toMap key fields).mp h),
        toValue_toValue v, toMap_toMap fields]

end

/-- JSON in memory: no object in it repeats a key. -/
@[ext] structure Value where
  json : Json
  toValue_json : json.toValue = json

def Value.null : Value := ⟨.null, rfl⟩

/-- The value of a text. -/
def value (j : Json) : Value := ⟨j.toValue, j.toValue_toValue⟩

@[simp] theorem Value.value_json (v : Value) : v.json.value = v := Value.ext v.toValue_json

theorem valuesAt_of_notMem {name : String} {fields : List (String × Json)}
    (h : name ∉ fields.map Prod.fst) : valuesAt name fields = [] :=
  valuesAt_eq_nil name fields fun field hfield heq =>
    h (List.mem_map.mpr ⟨field, hfield, heq⟩)

theorem valuesAt_cons_self (name : String) (v : Json) (fields : List (String × Json)) :
    valuesAt name ((name, v) :: fields) = v :: valuesAt name fields := by
  simp [valuesAt]

theorem valuesAt_ne_nil {name : String} {fields : List (String × Json)}
    (h : name ∈ fields.map Prod.fst) : valuesAt name fields ≠ [] := by
  obtain ⟨field, hfield, rfl⟩ := List.mem_map.mp h
  unfold valuesAt
  rw [ne_eq, List.map_eq_nil_iff, List.filter_eq_nil_iff]
  intro hnone
  exact hnone field hfield (by simp)

/-- A key of a value has the last of its values in the text. -/
theorem valuesAt_toMap (name : String) (fields : List (String × Json)) :
    valuesAt name (toMap fields) = ((valuesAt name fields).getLast?.map toValue).toList := by
  induction fields with
  | nil => rfl
  | cons field fields ih =>
    obtain ⟨key, v⟩ := field
    by_cases hkey : key = name
    · subst hkey
      rw [valuesAt_cons_self]
      by_cases h : key ∈ fields.map Prod.fst
      · rw [toMap_cons_of_mem h, ih, List.getLast?_cons_of_ne_nil (valuesAt_ne_nil h)]
      · rw [toMap_cons_of_notMem h, valuesAt_cons_self, valuesAt_of_notMem h,
          valuesAt_of_notMem (mt (fst_mem_toMap key fields).mp h)]
        rfl
    · rw [valuesAt_cons_of_ne hkey]
      by_cases h : key ∈ fields.map Prod.fst
      · rw [toMap_cons_of_mem h, ih]
      · rw [toMap_cons_of_notMem h, valuesAt_cons_of_ne hkey, ih]

end Json

/-! ## Codecs -/

/-- How the values of a type are written, and read back. -/
structure Codec (α : Type*) where
  encode : α → Json
  decode : Json → Option α
  /-- The values that are read back as they were written. -/
  Stable : α → Prop
  decode_encode : ∀ {a}, Stable a → decode (encode a) = some a
  stable_of_decode : ∀ {j a}, decode j = some a → Stable a
  /-- Only null is read as a value that is written as null. -/
  null_of_decode : ∀ {j a}, decode j = some a → encode a = .null → j = .null

namespace Codec

variable {α β : Type*}

theorem stable_iff (c : Codec α) {a : α} : c.Stable a ↔ c.decode (c.encode a) = some a :=
  ⟨c.decode_encode, c.stable_of_decode⟩

/-- What was read once survives being written. -/
theorem decode_encode_of_decode (c : Codec α) {j : Json} {a : α} (h : c.decode j = some a) :
    c.decode (c.encode a) = some a := c.decode_encode (c.stable_of_decode h)

/-- Any JSON value. -/
def value : Codec Json.Value where
  encode v := v.json
  decode j := some j.value
  Stable _ := True
  decode_encode {v} _ := congrArg some v.value_json
  stable_of_decode _ := trivial
  null_of_decode := by
    intro j v h hnull
    obtain rfl := Option.some.inj h
    cases j with
    | null => rfl
    | _ => cases hnull

def string : Codec String where
  encode := .string
  decode
    | .string s => some s
    | _ => none
  Stable _ := True
  decode_encode _ := rfl
  stable_of_decode _ := trivial
  null_of_decode _ hnull := by cases hnull

def bool : Codec Bool where
  encode := .bool
  decode
    | .bool b => some b
    | _ => none
  Stable _ := True
  decode_encode _ := rfl
  stable_of_decode _ := trivial
  null_of_decode _ hnull := by cases hnull

/-- Unsigned integers of 32 bits. -/
def uint32 : Codec UInt32 where
  encode n := .integer n.toNat
  decode
    | .integer n => if 0 ≤ n ∧ n < UInt32.size then some (UInt32.ofNat n.toNat) else none
    | _ => none
  Stable _ := True
  decode_encode := by
    intro n _
    have hlt : (n.toNat : Int) < UInt32.size := by exact_mod_cast n.toNat_lt_size
    dsimp only
    rw [if_pos ⟨Int.natCast_nonneg _, hlt⟩, Int.toNat_natCast, UInt32.ofNat_toNat]
  stable_of_decode _ := trivial
  null_of_decode _ hnull := by cases hnull

/-- The values of an enumeration, by their names. A name is also read as the only key of an object,
with null under it. -/
def enum (all : List α) (name : α → String) (hall : ∀ a, a ∈ all) (hnodup : (all.map name).Nodup) :
    Codec α where
  encode a := .string (name a)
  decode
    | .string s => all.find? fun a => name a = s
    | .object [(s, .null)] => all.find? fun a => name a = s
    | _ => none
  Stable _ := True
  decode_encode := by
    intro a _
    have hinj := List.inj_on_of_nodup_map hnodup
    dsimp only
    cases hfind : all.find? fun b => name b = name a with
    | none => simpa using List.find?_eq_none.mp hfind a (hall a)
    | some b =>
      have hname : name b = name a := by simpa using List.find?_some hfind
      rw [hinj (hall b) (hall a) hname]
  stable_of_decode _ := trivial
  null_of_decode _ hnull := by cases hnull

/-- Arrays. -/
def list (c : Codec α) : Codec (List α) where
  encode l := .array (l.map c.encode)
  decode
    | .array items => items.mapM c.decode
    | _ => none
  Stable l := ∀ a ∈ l, c.Stable a
  decode_encode := by
    intro l h
    dsimp only
    induction l with
    | nil => rfl
    | cons a l ih =>
      rw [List.forall_mem_cons] at h
      rw [List.map_cons, List.mapM_cons, c.decode_encode h.1, ih h.2]
      rfl
  stable_of_decode := by
    intro j l h
    cases j with
    | array items =>
      dsimp only at h
      induction items generalizing l with
      | nil =>
        cases h
        exact List.forall_mem_nil _
      | cons item items ih =>
        rw [List.mapM_cons] at h
        cases hitem : c.decode item with
        | none => simp [hitem] at h
        | some a =>
          cases hitems : items.mapM c.decode with
          | none => simp [hitem, hitems] at h
          | some rest =>
            simp only [hitem, hitems, Option.bind_eq_bind, Option.bind_some, Option.pure_def,
              Option.some.injEq] at h
            rw [← h, List.forall_mem_cons]
            exact ⟨c.stable_of_decode hitem, ih hitems⟩
    | _ => cases h
  null_of_decode _ hnull := by cases hnull

/-- Null for an absent value. A present value that is written as null is lost. -/
def option (c : Codec α) : Codec (Option α) where
  encode
    | none => .null
    | some a => c.encode a
  decode
    | .null => some none
    | j => (c.decode j).map some
  Stable o := ∀ a ∈ o, c.Stable a ∧ c.encode a ≠ .null
  decode_encode := by
    intro o h
    cases o with
    | none => rfl
    | some a =>
      obtain ⟨hstable, hne⟩ := h a rfl
      have hdecode := c.decode_encode hstable
      dsimp only
      split
      next hnull => exact absurd hnull hne
      next => rw [hdecode]; rfl
  stable_of_decode := by
    intro j o h a ha
    obtain rfl := Option.mem_def.mp ha
    split at h
    · cases h
    next hne =>
      obtain ⟨b, hb, hba⟩ := Option.map_eq_some_iff.mp h
      obtain rfl := Option.some.inj hba
      exact ⟨c.stable_of_decode hb, fun hnull => hne (c.null_of_decode hb hnull)⟩
  null_of_decode := by
    intro j o h hnull
    split at h
    · rfl
    next hne =>
      obtain ⟨b, hb, rfl⟩ := Option.map_eq_some_iff.mp h
      exact c.null_of_decode hb hnull

/-- Every value is stable, and none is written as null. -/
def Total (c : Codec α) : Prop := ∀ a, c.Stable a ∧ c.encode a ≠ .null

theorem uint32_total : uint32.Total := fun _ => ⟨trivial, nofun⟩

theorem enum_total (all : List α) (name : α → String) (hall : ∀ a, a ∈ all)
    (hnodup : (all.map name).Nodup) : (enum all name hall hnodup).Total :=
  fun _ => ⟨trivial, nofun⟩

theorem Total.list {c : Codec α} (h : c.Total) : c.list.Total :=
  fun _ => ⟨fun a _ => (h a).1, nofun⟩

theorem Total.option {c : Codec α} (h : c.Total) (o : Option α) : c.option.Stable o :=
  fun a _ => h a

end Codec

/-! ## Fields -/

/-- How a group of object fields is written, and read back. -/
structure Fields (α : Type*) where
  names : List String
  write : α → List (String × Json)
  read : List (String × Json) → Option α
  /-- Read the group from the first elements of an array, and leave the others. -/
  readSeq : List Json → Option (α × List Json)
  Stable : α → Prop
  write_names : ∀ {a}, ∀ field ∈ write a, field.1 ∈ names
  read_congr : ∀ {l₁ l₂}, (∀ name ∈ names, Json.valuesAt name l₁ = Json.valuesAt name l₂) →
    read l₁ = read l₂
  read_write : ∀ {a}, Stable a → read (write a) = some a
  stable_of_read : ∀ {l a}, read l = some a → Stable a
  stable_of_readSeq : ∀ {l a}, readSeq l = some a → Stable a.1

namespace Fields

variable {α β : Type*}

/-- The only value under a name, or what to take when there is none. -/
def readAt (name : String) (absent : Option α) (decode : Json → Option α)
    (fields : List (String × Json)) : Option α :=
  match Json.valuesAt name fields with
  | [] => absent
  | [v] => decode v
  | _ => none

theorem readAt_congr {name : String} {absent : Option α} {decode : Json → Option α}
    {l₁ l₂ : List (String × Json)}
    (h : ∀ key ∈ [name], Json.valuesAt key l₁ = Json.valuesAt key l₂) :
    readAt name absent decode l₁ = readAt name absent decode l₂ := by
  unfold readAt
  rw [h name List.mem_cons_self]

@[simp] theorem readAt_self (name : String) (absent : Option α) (decode : Json → Option α)
    (v : Json) : readAt name absent decode [(name, v)] = decode v := by
  unfold readAt
  rw [Json.valuesAt_self]

theorem of_readAt {name : String} {absent : Option α} {decode : Json → Option α}
    {fields : List (String × Json)} {a : α} (h : readAt name absent decode fields = some a) :
    absent = some a ∨ ∃ v, decode v = some a := by
  unfold readAt at h
  split at h
  · exact .inl h
  next v _ => exact .inr ⟨v, h⟩
  · cases h

/-- The first element, or what to take when there is none. -/
def nextElement (absent : Option α) (decode : Json → Option α) :
    List Json → Option (α × List Json)
  | [] => absent.map (·, [])
  | v :: rest => (decode v).map (·, rest)

theorem of_nextElement {absent : Option α} {decode : Json → Option α} {items : List Json}
    {a : α × List Json} (h : nextElement absent decode items = some a) :
    absent = some a.1 ∨ ∃ v, decode v = some a.1 := by
  cases items with
  | nil =>
    obtain ⟨b, hb, rfl⟩ := Option.map_eq_some_iff.mp h
    exact .inl hb
  | cons v rest =>
    obtain ⟨b, hb, rfl⟩ := Option.map_eq_some_iff.mp h
    exact .inr ⟨v, hb⟩

/-- A field that must be there. -/
def required (name : String) (c : Codec α) : Fields α where
  names := [name]
  write a := [(name, c.encode a)]
  read := readAt name none c.decode
  readSeq := nextElement none c.decode
  Stable := c.Stable
  write_names := by simp
  read_congr := readAt_congr
  read_write h := (readAt_self ..).trans (c.decode_encode h)
  stable_of_read h := by
    rcases of_readAt h with habsent | ⟨v, hv⟩
    · cases habsent
    · exact c.stable_of_decode hv
  stable_of_readSeq h := by
    rcases of_nextElement h with habsent | ⟨v, hv⟩
    · cases habsent
    · exact c.stable_of_decode hv

/-- A field that is always written, and has a default when it is read. -/
def defaulted (name : String) (c : Codec α) (a₀ : α) (h₀ : c.Stable a₀) : Fields α where
  names := [name]
  write a := [(name, c.encode a)]
  read := readAt name (some a₀) c.decode
  readSeq := nextElement (some a₀) c.decode
  Stable := c.Stable
  write_names := by simp
  read_congr := readAt_congr
  read_write h := (readAt_self ..).trans (c.decode_encode h)
  stable_of_read h := by
    rcases of_readAt h with habsent | ⟨v, hv⟩
    · obtain rfl := Option.some.inj habsent
      exact h₀
    · exact c.stable_of_decode hv
  stable_of_readSeq h := by
    rcases of_nextElement h with habsent | ⟨v, hv⟩
    · rw [← Option.some.inj habsent]
      exact h₀
    · exact c.stable_of_decode hv

/-- A field that is null when the value is absent, and may be left out. -/
def nullable (name : String) (c : Codec α) : Fields (Option α) :=
  defaulted name c.option none (by simp [Codec.option])

/-- A field that is left out when the value is absent, and may be null. In an array it may be missing
at the end only if it has a default. -/
def skipped (name : String) (c : Codec α) (default : Bool) : Fields (Option α) where
  names := [name]
  write o := o.toList.map fun a => (name, c.encode a)
  read := readAt name (some none) c.option.decode
  readSeq := nextElement (if default then some none else none) c.option.decode
  Stable := c.option.Stable
  write_names := by simp
  read_congr := readAt_congr
  read_write := by
    intro o h
    cases o with
    | none => rfl
    | some a => exact (readAt_self ..).trans (c.option.decode_encode h)
  stable_of_read h := by
    rcases of_readAt h with habsent | ⟨v, hv⟩
    · obtain rfl := Option.some.inj habsent
      simp [Codec.option]
    · exact c.option.stable_of_decode hv
  stable_of_readSeq h := by
    rcases of_nextElement h with habsent | ⟨v, hv⟩
    · rw [Option.ite_none_right_eq_some] at habsent
      rw [← Option.some.inj habsent.2]
      simp [Codec.option]
    · exact c.option.stable_of_decode hv

/-- Two groups of fields without a common name. -/
def pair (f : Fields α) (g : Fields β) (h : ∀ name ∈ f.names, name ∉ g.names) : Fields (α × β) where
  names := f.names ++ g.names
  write a := f.write a.1 ++ g.write a.2
  read l := (f.read l).bind fun a => (g.read l).map fun b => (a, b)
  readSeq l := (f.readSeq l).bind fun a => (g.readSeq a.2).map fun b => ((a.1, b.1), b.2)
  Stable a := f.Stable a.1 ∧ g.Stable a.2
  write_names := by
    intro a field hfield
    rw [List.mem_append] at hfield ⊢
    exact hfield.imp (f.write_names field) (g.write_names field)
  read_congr := by
    intro l₁ l₂ hvalues
    rw [f.read_congr fun name hname => hvalues name (List.mem_append_left _ hname),
      g.read_congr fun name hname => hvalues name (List.mem_append_right _ hname)]
  read_write := by
    intro a hstable
    have hleft : f.read (f.write a.1 ++ g.write a.2) = f.read (f.write a.1) := by
      refine f.read_congr fun name hname => ?_
      have hother : ∀ field ∈ g.write a.2, field.1 ≠ name := by
        rintro field hfield rfl
        exact h _ hname (g.write_names field hfield)
      rw [Json.valuesAt_append, Json.valuesAt_eq_nil name _ hother, List.append_nil]
    have hright : g.read (f.write a.1 ++ g.write a.2) = g.read (g.write a.2) := by
      refine g.read_congr fun name hname => ?_
      have hother : ∀ field ∈ f.write a.1, field.1 ≠ name := by
        rintro field hfield rfl
        exact h _ (f.write_names field hfield) hname
      rw [Json.valuesAt_append, Json.valuesAt_eq_nil name _ hother, List.nil_append]
    rw [hleft, hright, f.read_write hstable.1, g.read_write hstable.2]
    rfl
  stable_of_read := by
    intro l a hread
    obtain ⟨b, hb, hrest⟩ := Option.bind_eq_some_iff.mp hread
    obtain ⟨c, hc, rfl⟩ := Option.map_eq_some_iff.mp hrest
    exact ⟨f.stable_of_read hb, g.stable_of_read hc⟩
  stable_of_readSeq := by
    intro l a hread
    obtain ⟨b, hb, hrest⟩ := Option.bind_eq_some_iff.mp hread
    obtain ⟨c, hc, rfl⟩ := Option.map_eq_some_iff.mp hrest
    exact ⟨f.stable_of_readSeq hb, g.stable_of_readSeq hc⟩

/-- The fields of a structure, from those of the tuple of its parts. -/
def imap (f : Fields α) (e : α ≃ β) : Fields β where
  names := f.names
  write b := f.write (e.symm b)
  read l := (f.read l).map e
  readSeq l := (f.readSeq l).map fun a => (e a.1, a.2)
  Stable b := f.Stable (e.symm b)
  write_names := fun field => f.write_names field
  read_congr h := by rw [f.read_congr h]
  read_write h := by
    rw [f.read_write h]
    simp
  stable_of_read := by
    intro l b h
    obtain ⟨a, ha, rfl⟩ := Option.map_eq_some_iff.mp h
    rw [e.symm_apply_apply]
    exact f.stable_of_read ha
  stable_of_readSeq := by
    intro l b h
    obtain ⟨a, ha, rfl⟩ := Option.map_eq_some_iff.mp h
    rw [e.symm_apply_apply]
    exact f.stable_of_readSeq ha

/-- Read the group from an array that has nothing else. -/
def readArray (f : Fields α) (items : List Json) : Option α :=
  match f.readSeq items with
  | some (a, []) => some a
  | _ => none

theorem stable_of_readArray (f : Fields α) {items : List Json} {a : α}
    (h : f.readArray items = some a) : f.Stable a := by
  unfold readArray at h
  split at h
  next b hread =>
    obtain rfl := Option.some.inj h
    exact f.stable_of_readSeq hread
  · cases h

/-- A structure: written as an object, and read from an object or from an array of its fields. -/
def object (f : Fields α) : Codec α where
  encode a := .object (f.write a)
  decode
    | .object fields => f.read fields
    | .array items => f.readArray items
    | _ => none
  Stable := f.Stable
  decode_encode := f.read_write
  stable_of_decode := by
    intro j a h
    cases j with
    | object fields => exact f.stable_of_read h
    | array items => exact f.stable_of_readArray h
    | _ => cases h
  null_of_decode _ hnull := by cases hnull

end Fields
