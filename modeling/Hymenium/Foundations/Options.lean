import Mathlib.Data.List.Basic

/-!
# Command-line options in a fixed order

A writer of a command line puts each option it has behind the others, in a fixed order: its name,
and its value if it takes one. A reader that goes through the names in the same order finds every
value again, whatever the values look like (`decode_encode`): a value may be the name of an option.
-/

namespace Options

/-- An option: its name, and whether a value follows. -/
structure Slot (α : Type*) where
  name : α
  valued : Bool
  deriving DecidableEq

variable {α : Type*}

/-- The arguments of an option; `none` when it is not given. A switch has no value to write. -/
def encodeOne (slot : Slot α) : Option α → List α
  | none => []
  | some value => if slot.valued then [slot.name, value] else [slot.name]

/-- The arguments of options that are given or not. -/
def encode (options : List (Slot α × Option α)) : List α :=
  options.flatMap fun (slot, value) => encodeOne slot value

variable {slot : Slot α} {options : List (Slot α × Option α)}

/-- Arguments begin with the name of an option. -/
theorem mem_of_head?_encode {name : α} (h : (encode options).head? = some name) :
    name ∈ options.map (·.1.name) := by
  induction options with
  | nil => cases h
  | cons option options ih =>
    obtain ⟨slot, value⟩ := option
    rw [encode, List.flatMap_cons] at h
    cases value with
    | none => exact List.mem_cons_of_mem _ (ih h)
    | some value =>
      have hname : slot.name = name := by
        cases hvalued : slot.valued <;> simpa [encodeOne, hvalued] using h
      exact hname ▸ List.mem_cons_self

section Reading

variable [DecidableEq α]

/-- Read an option if it comes next. A switch that is there counts as `on`. -/
def decodeOne (on : α) (slot : Slot α) : List α → Option α × List α
  | [] => (none, [])
  | name :: rest =>
    if name = slot.name then
      if slot.valued then
        match rest with
        | [] => (none, name :: rest)
        | value :: rest => (some value, rest)
      else (some on, rest)
    else (none, name :: rest)

/-- Read options in their order. Nothing may be left over. -/
def decode (on : α) : List (Slot α) → List α → Option (List (Option α))
  | [], args => if args = [] then some [] else none
  | slot :: slots, args =>
    (decode on slots (decodeOne on slot args).2).map ((decodeOne on slot args).1 :: ·)

variable {on : α}

/-- An option is found again before arguments that do not begin with its name. -/
theorem decodeOne_append {value : Option α} {args : List α} (hargs : args.head? ≠ some slot.name)
    (hswitch : slot.valued = false → value = none ∨ value = some on) :
    decodeOne on slot (encodeOne slot value ++ args) = (value, args) := by
  cases value with
  | none =>
    cases args with
    | nil => rfl
    | cons name args =>
      have hname : name ≠ slot.name := fun h => hargs (congrArg some h)
      exact if_neg hname
  | some value =>
    cases hvalued : slot.valued with
    | true => simp [encodeOne, decodeOne, hvalued]
    | false =>
      have hvalue : value = on := by simpa using hswitch hvalued
      simp [encodeOne, decodeOne, hvalued, hvalue]

/-- **Round trip.** Options of different names are read back. -/
theorem decode_encode (hnodup : (options.map (·.1.name)).Nodup)
    (hswitch : ∀ option ∈ options, option.1.valued = false →
      option.2 = none ∨ option.2 = some on) :
    decode on (options.map Prod.fst) (encode options) = some (options.map Prod.snd) := by
  induction options with
  | nil => rfl
  | cons option options ih =>
    obtain ⟨slot, value⟩ := option
    obtain ⟨hfirst, hrest⟩ := List.nodup_cons.mp hnodup
    obtain ⟨hslot, hslots⟩ := List.forall_mem_cons.mp hswitch
    have hhead : (encode options).head? ≠ some slot.name := fun h => hfirst (mem_of_head?_encode h)
    have hone : decodeOne on slot (encode ((slot, value) :: options)) = (value, encode options) :=
      decodeOne_append hhead hslot
    rw [List.map_cons, decode, hone, ih hrest hslots]
    rfl

end Reading

end Options
