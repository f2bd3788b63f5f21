import Mathlib.Data.List.Basic
import Mathlib.Data.List.Infix

/-!
# Calls and their replies

`keep` runs an automaton over a list and drops the elements it refuses. The automaton of calls and
replies refuses a second call of a key, a second reply, and a reply without a call. What it keeps is
complete once every unanswered call is followed by a stub (`run_fill`, `Complete.of_run`).
-/

namespace Pairing

section Automaton

variable {σ α : Type*} (step : σ → α → Option σ)

/-- The state after a list, all of which is accepted. -/
def run : σ → List α → Option σ
  | s, [] => some s
  | s, a :: l => (step s a).bind fun s => run s l

/-- The elements that are accepted one after the other. -/
def keep : σ → List α → List α
  | _, [] => []
  | s, a :: l =>
    match step s a with
    | none => keep s l
    | some s => a :: keep s l

/-- The state after the elements that are accepted. -/
def final : σ → List α → σ
  | s, [] => s
  | s, a :: l => final ((step s a).getD s) l

variable {step} {s s' : σ} {a : α} {l : List α}

theorem run_cons : run step s (a :: l) = some s' ↔
    ∃ t, step s a = some t ∧ run step t l = some s' := Option.bind_eq_some_iff

theorem run_append {l' : List α} : run step s (l ++ l') = some s' ↔
    ∃ t, run step s l = some t ∧ run step t l' = some s' := by
  induction l generalizing s with
  | nil => simp [run]
  | cons a l ih =>
    rw [List.cons_append, run_cons]
    simp only [run_cons, ih]
    constructor
    · rintro ⟨t, ha, u, hl, hl'⟩
      exact ⟨u, ⟨t, ha, hl⟩, hl'⟩
    · rintro ⟨u, ⟨t, ha, hl⟩, hl'⟩
      exact ⟨t, ha, u, hl, hl'⟩

theorem keep_of_none (h : step s a = none) : keep step s (a :: l) = keep step s l := by
  rw [keep, h]

theorem keep_of_some {t : σ} (h : step s a = some t) :
    keep step s (a :: l) = a :: keep step t l := by
  rw [keep, h]

theorem run_keep (s : σ) (l : List α) : run step s (keep step s l) = some (final step s l) := by
  induction l generalizing s with
  | nil => rfl
  | cons a l ih =>
    cases ha : step s a with
    | none =>
      rw [keep_of_none ha, final, ha]
      exact ih s
    | some t =>
      rw [keep_of_some ha, run_cons, final, ha]
      exact ⟨t, rfl, ih t⟩

/-- Of an accepted list everything is kept. -/
theorem keep_of_run (h : run step s l = some s') : keep step s l = l := by
  induction l generalizing s with
  | nil => rfl
  | cons a l ih =>
    obtain ⟨t, ha, hl⟩ := run_cons.mp h
    rw [keep_of_some ha, ih hl]

theorem keep_sublist (s : σ) (l : List α) : (keep step s l).Sublist l := by
  induction l generalizing s with
  | nil => exact .slnil
  | cons a l ih =>
    cases ha : step s a with
    | none =>
      rw [keep_of_none ha]
      exact (ih s).cons a
    | some t =>
      rw [keep_of_some ha]
      exact (ih t).cons_cons a

/-- The elements that no state refuses are all kept. -/
theorem filter_keep {p : α → Bool} (hp : ∀ s a, p a = true → step s a ≠ none) (s : σ)
    (l : List α) : (keep step s l).filter p = l.filter p := by
  induction l generalizing s with
  | nil => rfl
  | cons a l ih =>
    cases ha : step s a with
    | none =>
      have hpa : p a ≠ true := fun hpa => hp s a hpa ha
      rw [keep_of_none ha, ih, List.filter_cons_of_neg hpa]
    | some t => rw [keep_of_some ha, List.filter_cons, List.filter_cons, ih]

theorem keep_append (s : σ) (l l' : List α) :
    keep step s (l ++ l') = keep step s l ++ keep step (final step s l) l' := by
  induction l generalizing s with
  | nil => rfl
  | cons a l ih =>
    cases ha : step s a with
    | none => rw [List.cons_append, keep_of_none ha, keep_of_none ha, final, ha, ih]; rfl
    | some t => rw [List.cons_append, keep_of_some ha, keep_of_some ha, final, ha, ih]; rfl

end Automaton

/-! ## Calls and replies -/

/-- What a message is to the protocol. -/
inductive Event (κ : Type*) where
  | call (key : κ)
  | reply (key : κ)
  | stray
  | other
  deriving DecidableEq

/-- The keys called and replied so far, the last one first. -/
structure Session (κ : Type*) where
  called : List κ := []
  replied : List κ := []

/-- `t` stands where `s` stands in a run that ends in `s'`, with the stubs inserted so far: their keys
have no reply in the whole run. -/
structure Stubbed {κ : Type*} (s s' t : Session κ) : Prop where
  called : t.called = s.called
  kept : s.replied ⊆ t.replied
  added : ∀ k ∈ t.replied, k ∈ s.replied ∨ k ∉ s'.replied
  within : t.replied ⊆ t.called

namespace Stubbed

variable {κ : Type*} {s s' t : Session κ} {k : κ}

theorem start (s' : Session κ) : Stubbed {} s' {} :=
  ⟨rfl, List.Subset.refl _, nofun, List.Subset.refl _⟩

theorem not_called (h : Stubbed s s' t) (hk : k ∉ s.called) : k ∉ t.called := h.called ▸ hk

theorem not_replied (h : Stubbed s s' t) (hk : k ∉ s.replied) (hk' : k ∈ s'.replied) :
    k ∉ t.replied := by
  intro hmem
  rcases h.added k hmem with hold | hnever
  · exact hk hold
  · exact hnever hk'

theorem call (h : Stubbed s s' t) (k : κ) :
    Stubbed { s with called := k :: s.called } s' { t with called := k :: t.called } where
  called := congrArg (k :: ·) h.called
  kept := h.kept
  added := h.added
  within _ hx := List.mem_cons_of_mem _ (h.within hx)

theorem stub (h : Stubbed s s' t) (hk : k ∉ s'.replied) :
    Stubbed { s with called := k :: s.called } s' ⟨k :: t.called, k :: t.replied⟩ where
  called := congrArg (k :: ·) h.called
  kept _ hx := List.mem_cons_of_mem _ (h.kept hx)
  added x hx := by
    rcases List.mem_cons.mp hx with rfl | hx
    · exact .inr hk
    · exact h.added x hx
  within := List.cons_subset_cons k h.within

theorem reply (h : Stubbed s s' t) (hk : k ∈ s.called) :
    Stubbed { s with replied := k :: s.replied } s' { t with replied := k :: t.replied } where
  called := h.called
  kept := List.cons_subset_cons k h.kept
  added x hx := by
    rcases List.mem_cons.mp hx with rfl | hx
    · exact .inl List.mem_cons_self
    · exact (h.added x hx).imp_left (List.mem_cons_of_mem _)
  within := List.cons_subset.mpr ⟨h.called ▸ hk, h.within⟩

end Stubbed

section Protocol

variable {κ α : Type*} [DecidableEq κ] (event : α → Event κ)

/-- One call of each key, and after it at most one reply. -/
def accept (s : Session κ) (a : α) : Option (Session κ) :=
  match event a with
  | .call k => if k ∈ s.called then none else some { s with called := k :: s.called }
  | .reply k =>
    if k ∈ s.called ∧ k ∉ s.replied then some { s with replied := k :: s.replied } else none
  | .stray => none
  | .other => some s

variable {event} {s s' : Session κ} {a : α} {k : κ} {l : List α}

theorem accept_call (h : event a = .call k) : accept event s a =
    if k ∈ s.called then none else some { s with called := k :: s.called } := by
  rw [accept, h]

theorem accept_reply (h : event a = .reply k) : accept event s a =
    if k ∈ s.called ∧ k ∉ s.replied then some { s with replied := k :: s.replied } else none := by
  rw [accept, h]

theorem accept_stray (h : event a = .stray) : accept event s a = none := by rw [accept, h]

theorem accept_other (h : event a = .other) : accept event s a = some s := by rw [accept, h]

/-- **Step lemma.** What an accepted element is, and what it adds. -/
theorem accept_cases (h : accept event s a = some s') :
    (∃ k, event a = .call k ∧ k ∉ s.called ∧ s' = { s with called := k :: s.called }) ∨
      (∃ k, event a = .reply k ∧ k ∈ s.called ∧ k ∉ s.replied ∧
        s' = { s with replied := k :: s.replied }) ∨
      event a = .other ∧ s' = s := by
  cases ha : event a with
  | call k =>
    rw [accept_call ha] at h
    split_ifs at h with hk
    exact .inl ⟨k, rfl, hk, (Option.some.inj h).symm⟩
  | reply k =>
    rw [accept_reply ha] at h
    split_ifs at h with hk
    exact .inr (.inl ⟨k, rfl, hk.1, hk.2, (Option.some.inj h).symm⟩)
  | stray =>
    rw [accept_stray ha] at h
    cases h
  | other =>
    rw [accept_other ha] at h
    exact .inr (.inr ⟨rfl, (Option.some.inj h).symm⟩)

/-- The called keys after a run. -/
theorem mem_called (h : run (accept event) s l = some s') :
    k ∈ s'.called ↔ k ∈ s.called ∨ ∃ a ∈ l, event a = .call k := by
  induction l generalizing s with
  | nil =>
    cases h
    simp
  | cons a l ih =>
    obtain ⟨t, ha, hl⟩ := run_cons.mp h
    rw [ih hl, List.exists_mem_cons_iff]
    rcases accept_cases ha with ⟨k', he, -, rfl⟩ | ⟨k', he, -, -, rfl⟩ | ⟨he, rfl⟩
    · simp only [he, Event.call.injEq, List.mem_cons, eq_comm (a := k), or_assoc, or_left_comm]
    · simp [he]
    · simp [he]

/-- The replied keys after a run. -/
theorem mem_replied (h : run (accept event) s l = some s') :
    k ∈ s'.replied ↔ k ∈ s.replied ∨ ∃ a ∈ l, event a = .reply k := by
  induction l generalizing s with
  | nil =>
    cases h
    simp
  | cons a l ih =>
    obtain ⟨t, ha, hl⟩ := run_cons.mp h
    rw [ih hl, List.exists_mem_cons_iff]
    rcases accept_cases ha with ⟨k', he, -, rfl⟩ | ⟨k', he, -, -, rfl⟩ | ⟨he, rfl⟩
    · simp [he]
    · simp only [he, Event.reply.injEq, List.mem_cons, eq_comm (a := k), or_assoc, or_left_comm]
    · simp [he]

theorem nodup_called (h : run (accept event) s l = some s') (hs : s.called.Nodup) :
    s'.called.Nodup := by
  induction l generalizing s with
  | nil =>
    cases h
    exact hs
  | cons a l ih =>
    obtain ⟨t, ha, hl⟩ := run_cons.mp h
    rcases accept_cases ha with ⟨k, -, hk, rfl⟩ | ⟨k, -, -, -, rfl⟩ | ⟨-, rfl⟩
    · exact ih hl (List.nodup_cons.mpr ⟨hk, hs⟩)
    · exact ih hl hs
    · exact ih hl hs

/-- Only called keys are replied. -/
theorem replied_subset_called (h : run (accept event) s l = some s')
    (hs : s.replied ⊆ s.called) : s'.replied ⊆ s'.called := by
  induction l generalizing s with
  | nil =>
    cases h
    exact hs
  | cons a l ih =>
    obtain ⟨t, ha, hl⟩ := run_cons.mp h
    rcases accept_cases ha with ⟨k, -, -, rfl⟩ | ⟨k, -, hk, -, rfl⟩ | ⟨-, rfl⟩
    · exact ih hl fun x hx => List.mem_cons_of_mem _ (hs hx)
    · exact ih hl (List.cons_subset.mpr ⟨hk, hs⟩)
    · exact ih hl hs

/-! ## Complete lists -/

variable (event) in
/-- Every call has one reply, which comes after it, and there are no other replies. -/
structure Complete (l : List α) : Prop where
  calls : l.Pairwise fun a b => ∀ k, event a = .call k → event b ≠ .call k
  answered : ∀ pre a post k, l = pre ++ a :: post → event a = .call k →
    ∃ mid b rest, post = mid ++ b :: rest ∧ event b = .reply k ∧
      ∀ c ∈ pre ++ mid ++ rest, event c ≠ .reply k
  called : ∀ pre b post k, l = pre ++ b :: post → event b = .reply k →
    ∃ a ∈ pre, event a = .call k
  stray : ∀ a ∈ l, event a ≠ .stray

theorem not_call_of_called (h : run (accept event) s l = some s') (hk : k ∈ s.called) :
    ∀ a ∈ l, event a ≠ .call k := by
  intro a ha he
  obtain ⟨pre, post, rfl⟩ := List.append_of_mem ha
  obtain ⟨t, hpre, hrest⟩ := run_append.mp h
  obtain ⟨u, hstep, -⟩ := run_cons.mp hrest
  rw [accept_call he, if_pos ((mem_called hpre).mpr (.inl hk))] at hstep
  cases hstep

theorem not_reply_of_replied (h : run (accept event) s l = some s') (hk : k ∈ s.replied) :
    ∀ a ∈ l, event a ≠ .reply k := by
  intro a ha he
  obtain ⟨pre, post, rfl⟩ := List.append_of_mem ha
  obtain ⟨t, hpre, hrest⟩ := run_append.mp h
  obtain ⟨u, hstep, -⟩ := run_cons.mp hrest
  rw [accept_reply he, if_neg fun hopen => hopen.2 ((mem_replied hpre).mpr (.inl hk))] at hstep
  cases hstep

theorem pairwise_of_run (h : run (accept event) s l = some s') :
    l.Pairwise fun a b => ∀ k, event a = .call k → event b ≠ .call k := by
  induction l generalizing s with
  | nil => exact .nil
  | cons a l ih =>
    obtain ⟨t, ha, hl⟩ := run_cons.mp h
    refine List.pairwise_cons.mpr ⟨fun b hb k he => ?_, ih hl⟩
    rw [accept_call he] at ha
    split_ifs at ha
    cases ha
    exact not_call_of_called hl List.mem_cons_self b hb

/-- An accepted list is complete when every called key is replied. -/
theorem Complete.of_run (h : run (accept event) {} l = some s) (hall : s.called ⊆ s.replied) :
    Complete event l where
  calls := pairwise_of_run h
  answered := by
    rintro pre a post k rfl he
    obtain ⟨t, hpre, hrest⟩ := run_append.mp h
    obtain ⟨u, hstep, hpost⟩ := run_cons.mp hrest
    rw [accept_call he] at hstep
    split_ifs at hstep with hnew
    cases hstep
    -- the reply cannot stand before the call
    have hfresh : k ∉ t.replied := fun hk =>
      hnew (replied_subset_called hpre (List.Subset.refl _) hk)
    have hk : k ∈ s.replied := hall ((mem_called hpost).mpr (.inl List.mem_cons_self))
    obtain ⟨b, hb, hreply⟩ := ((mem_replied hpost).mp hk).resolve_left hfresh
    obtain ⟨mid, rest, rfl⟩ := List.append_of_mem hb
    obtain ⟨v, hmid, hrest⟩ := run_append.mp hpost
    obtain ⟨w, hstep, hrest⟩ := run_cons.mp hrest
    rw [accept_reply hreply] at hstep
    split_ifs at hstep with hopen
    cases hstep
    refine ⟨mid, b, rest, rfl, hreply, fun c hc hec => ?_⟩
    rcases List.mem_append.mp hc with hc | hc
    · rcases List.mem_append.mp hc with hc | hc
      · exact hfresh ((mem_replied hpre).mpr (.inr ⟨c, hc, hec⟩))
      · exact hopen.2 ((mem_replied hmid).mpr (.inr ⟨c, hc, hec⟩))
    · exact not_reply_of_replied hrest List.mem_cons_self c hc hec
  called := by
    rintro pre b post k rfl he
    obtain ⟨t, hpre, hrest⟩ := run_append.mp h
    obtain ⟨u, hstep, -⟩ := run_cons.mp hrest
    rw [accept_reply he] at hstep
    split_ifs at hstep with hopen
    exact ((mem_called hpre).mp hopen.1).resolve_left List.not_mem_nil
  stray := by
    intro a ha he
    obtain ⟨pre, post, rfl⟩ := List.append_of_mem ha
    obtain ⟨t, -, hrest⟩ := run_append.mp h
    obtain ⟨u, hstep, -⟩ := run_cons.mp hrest
    rw [accept_stray he] at hstep
    cases hstep

/-! ## Stubs for the calls without a reply -/

variable (event) in
/-- A stub after each call whose key is not replied. -/
def fill (stub : α → α) (replied : List κ) (l : List α) : List α :=
  l.flatMap fun a =>
    match event a with
    | .call k => if k ∈ replied then [a] else [a, stub a]
    | _ => [a]

section Fill

variable {stub : α → α} {replied : List κ}

theorem fill_call_replied (h : event a = .call k) (hk : k ∈ replied) :
    fill event stub replied (a :: l) = a :: fill event stub replied l := by
  rw [fill, List.flatMap_cons, h]
  simp only [if_pos hk]
  rfl

theorem fill_call_open (h : event a = .call k) (hk : k ∉ replied) :
    fill event stub replied (a :: l) = a :: stub a :: fill event stub replied l := by
  rw [fill, List.flatMap_cons, h]
  simp only [if_neg hk]
  rfl

theorem fill_other (h : ∀ k, event a ≠ .call k) :
    fill event stub replied (a :: l) = a :: fill event stub replied l := by
  rw [fill, List.flatMap_cons]
  cases he : event a with
  | call k => exact absurd he (h k)
  | reply | stray | other => rfl

/-- Filling drops nothing. -/
theorem sublist_fill (stub : α → α) (replied : List κ) (l : List α) :
    l.Sublist (fill event stub replied l) := by
  induction l with
  | nil => exact .slnil
  | cons a l ih =>
    cases he : event a with
    | call k =>
      by_cases hk : k ∈ replied
      · rw [fill_call_replied he hk]
        exact ih.cons_cons a
      · rw [fill_call_open he hk]
        exact (ih.cons (stub a)).cons_cons a
    | reply | stray | other =>
      rw [fill_other (by simp [he])]
      exact ih.cons_cons a

/-- Filling adds stubs only. -/
theorem filter_fill {p : α → Bool} (hp : ∀ a k, event a = .call k → p (stub a) ≠ true)
    (replied : List κ) (l : List α) : (fill event stub replied l).filter p = l.filter p := by
  induction l with
  | nil => rfl
  | cons a l ih =>
    cases he : event a with
    | call k =>
      by_cases hk : k ∈ replied
      · rw [fill_call_replied he hk, List.filter_cons, List.filter_cons, ih]
      · rw [fill_call_open he hk, List.filter_cons, List.filter_cons_of_neg (hp a k he),
          List.filter_cons, ih]
    | reply | stray | other =>
      rw [fill_other (by simp [he]), List.filter_cons, List.filter_cons, ih]

/-- **Run lemma.** The filled list is accepted, and every call of it has its reply. -/
theorem run_fill (hstub : ∀ a k, event a = .call k → event (stub a) = .reply k)
    (h : run (accept event) s l = some s') {t : Session κ} (ht : Stubbed s s' t) :
    ∃ t', run (accept event) t (fill event stub s'.replied l) = some t' ∧ Stubbed s' s' t' ∧
      ∀ k ∈ s'.called, k ∈ s.called ∨ k ∈ t'.replied := by
  induction l generalizing s t with
  | nil =>
    cases h
    exact ⟨t, rfl, ht, fun k hk => .inl hk⟩
  | cons a l ih =>
    obtain ⟨u, ha, hl⟩ := run_cons.mp h
    rcases accept_cases ha with ⟨k, he, hk, rfl⟩ | ⟨k, he, hk, hr, rfl⟩ | ⟨he, rfl⟩
    · have hstep : accept event t a = some { t with called := k :: t.called } := by
        rw [accept_call he, if_neg (ht.not_called hk)]
      by_cases hanswered : k ∈ s'.replied
      · obtain ⟨t', hrun, ht', hall⟩ := ih hl (ht.call k)
        rw [fill_call_replied he hanswered, run, hstep]
        refine ⟨t', hrun, ht', fun x hx => ?_⟩
        rcases hall x hx with hx | hx
        · rcases List.mem_cons.mp hx with rfl | hx
          · exact .inr (ht'.kept hanswered)
          · exact .inl hx
        · exact .inr hx
      · have hfresh : k ∉ t.replied := fun hmem => ht.not_called hk (ht.within hmem)
        have hstep' : accept event { t with called := k :: t.called } (stub a) =
            some ⟨k :: t.called, k :: t.replied⟩ := by
          rw [accept_reply (hstub a k he), if_pos ⟨List.mem_cons_self, hfresh⟩]
        obtain ⟨t', hrun, ht', hall⟩ := ih hl (ht.stub hanswered)
        rw [fill_call_open he hanswered, run, hstep, Option.bind_some, run, hstep']
        refine ⟨t', hrun, ht', fun x hx => ?_⟩
        rcases hall x hx with hx | hx
        · rcases List.mem_cons.mp hx with rfl | hx
          · exact .inr ((mem_replied hrun).mpr (.inl List.mem_cons_self))
          · exact .inl hx
        · exact .inr hx
    · have hin : k ∈ s'.replied := (mem_replied hl).mpr (.inl List.mem_cons_self)
      have hstep : accept event t a = some { t with replied := k :: t.replied } := by
        rw [accept_reply he, if_pos ⟨ht.called ▸ hk, ht.not_replied hr hin⟩]
      rw [fill_other (by simp [he]), run, hstep]
      exact ih hl (ht.reply hk)
    · rw [fill_other (by simp [he]), run, accept_other he]
      exact ih hl ht

/-- A filled list is accepted from the start, and leaves no call without a reply. -/
theorem run_fill_start (hstub : ∀ a k, event a = .call k → event (stub a) = .reply k)
    (h : run (accept event) {} l = some s) :
    ∃ t, run (accept event) {} (fill event stub s.replied l) = some t ∧
      t.called ⊆ t.replied := by
  obtain ⟨t, hrun, ht, hall⟩ := run_fill hstub h (Stubbed.start s)
  refine ⟨t, hrun, fun k hk => ?_⟩
  rw [ht.called] at hk
  exact (hall k hk).resolve_left List.not_mem_nil

end Fill

end Protocol

end Pairing
