import Mathlib.Logic.Function.Basic
import Mathlib.Data.Nat.Basic

/-!
# A directory of files

Names, the files they refer to, and the contents of the files. An open file is a handle: it stays
the same file when its name is removed, or goes to another one. No file has two names.
-/

/-- A directory over names `ν`, with files of elements of `β`. -/
structure FileSystem (ν β : Type*) where
  inode : ν → Option ℕ
  data : ℕ → List β
  /-- Handles from here on have not been given out. -/
  next : ℕ
  inode_inj : ∀ {a b : ν} {i : ℕ}, inode a = some i → inode b = some i → a = b
  inode_lt : ∀ {a : ν} {i : ℕ}, inode a = some i → i < next

namespace FileSystem

variable {ν β : Type*}

/-- A directory without files. -/
def empty : FileSystem ν β := ⟨fun _ => none, fun _ => [], 0, nofun, nofun⟩

/-- The contents of the file with a name. -/
def read (fs : FileSystem ν β) (name : ν) : Option (List β) := (fs.inode name).map fs.data

/-- Write to an open file, from its beginning. What is beyond stays. -/
def write (fs : FileSystem ν β) (handle : ℕ) (bytes : List β) : FileSystem ν β :=
  { fs with
    data := Function.update fs.data handle (bytes ++ (fs.data handle).drop bytes.length) }

theorem read_write_of_ne {fs : FileSystem ν β} {name : ν} {handle : ℕ}
    (h : fs.inode name ≠ some handle) (bytes : List β) :
    (fs.write handle bytes).read name = fs.read name := by
  show (fs.inode name).map (Function.update fs.data handle _) = (fs.inode name).map fs.data
  cases hname : fs.inode name with
  | none => rfl
  | some i =>
    have hne : i ≠ handle := fun heq => h (hname.trans (congrArg some heq))
    exact congrArg some (Function.update_of_ne hne _ _)

/-- An empty file has what is written to it. -/
theorem read_write {fs : FileSystem ν β} {name : ν} {handle : ℕ}
    (h : fs.inode name = some handle) (hempty : fs.read name = some []) (bytes : List β) :
    (fs.write handle bytes).read name = some bytes := by
  have hdata : fs.data handle = [] := by
    rw [read, h] at hempty
    exact Option.some.inj hempty
  show (fs.inode name).map (Function.update fs.data handle _) = _
  rw [h, Option.map_some, Function.update_self, hdata, List.drop_nil, List.append_nil]

/-- The handle that opening a file for writing returns. -/
def handle (fs : FileSystem ν β) (name : ν) : ℕ := (fs.inode name).getD fs.next

/-- The handle of a file that is opened is its own. -/
theorem inode_ne_handle (fs : FileSystem ν β) {a name : ν} (h : a ≠ name) :
    fs.inode a ≠ some (fs.handle name) := by
  intro ha
  cases hname : fs.inode name with
  | none =>
    rw [handle, hname] at ha
    exact absurd (fs.inode_lt ha) (Nat.lt_irrefl _)
  | some i =>
    rw [handle, hname] at ha
    exact h (fs.inode_inj ha hname)

theorem handle_le (fs : FileSystem ν β) (name : ν) : fs.handle name ≤ fs.next := by
  unfold handle
  cases hname : fs.inode name with
  | none => exact Nat.le_refl _
  | some i => exact Nat.le_of_lt (fs.inode_lt hname)

variable [DecidableEq ν]

/-- Let a name refer to a file that no other name refers to, or to none. -/
def point (fs : FileSystem ν β) (name : ν) (target : Option ℕ)
    (hfree : ∀ a, a ≠ name → target ≠ none → fs.inode a ≠ target)
    (hlt : ∀ i, target = some i → i < fs.next) : FileSystem ν β where
  inode := Function.update fs.inode name target
  data := fs.data
  next := fs.next
  inode_inj := by
    intro a b i ha hb
    have hother : ∀ {c : ν}, c ≠ name → target = some i → fs.inode c ≠ some i := by
      intro c hc htarget
      rw [← htarget]
      exact hfree c hc (by rw [htarget]; exact Option.some_ne_none i)
    by_cases han : a = name <;> by_cases hbn : b = name
    · exact han.trans hbn.symm
    · rw [han, Function.update_self] at ha
      rw [Function.update_of_ne hbn] at hb
      exact absurd hb (hother hbn ha)
    · rw [hbn, Function.update_self] at hb
      rw [Function.update_of_ne han] at ha
      exact absurd ha (hother han hb)
    · rw [Function.update_of_ne han] at ha
      rw [Function.update_of_ne hbn] at hb
      exact fs.inode_inj ha hb
  inode_lt := by
    intro a i ha
    by_cases han : a = name
    · rw [han, Function.update_self] at ha
      exact hlt i ha
    · rw [Function.update_of_ne han] at ha
      exact fs.inode_lt ha

/-- Remove a name. -/
def remove (fs : FileSystem ν β) (name : ν) : FileSystem ν β :=
  fs.point name none (fun _ _ h => absurd rfl h) nofun

/-- Open a file for writing: a file that exists is emptied. -/
def create (fs : FileSystem ν β) (name : ν) : FileSystem ν β :=
  point { fs with
      data := Function.update fs.data (fs.handle name) []
      next := fs.next + 1
      inode_lt := fun h => Nat.lt_succ_of_lt (fs.inode_lt h) }
    name (some (fs.handle name)) (fun _ h _ => fs.inode_ne_handle h) fun _ h =>
      Option.some.inj h ▸ Nat.lt_succ_of_le (fs.handle_le name)

/-- Give the file `a` the name `b`, which takes it from another file. -/
def rename (fs : FileSystem ν β) (a b : ν) : FileSystem ν β :=
  (fs.remove a).point b (fs.inode a)
    (by
      intro c hcb hsome hc
      by_cases hca : c = a
      · rw [hca] at hc
        exact hsome (hc.symm.trans (Function.update_self ..))
      · have hc : fs.inode c = fs.inode a := (Function.update_of_ne hca ..).symm.trans hc
        obtain ⟨i, hi⟩ := Option.ne_none_iff_exists'.mp hsome
        exact hca (fs.inode_inj (hc.trans hi) hi))
    fun _ h => fs.inode_lt h

variable {fs : FileSystem ν β} {a b name : ν}

section Frame

variable {target : Option ℕ} (hfree : ∀ a, a ≠ b → target ≠ none → fs.inode a ≠ target)
  (hlt : ∀ i, target = some i → i < fs.next)

theorem inode_point_of_ne (h : name ≠ b) :
    (fs.point b target hfree hlt).inode name = fs.inode name :=
  Function.update_of_ne h ..

theorem read_point_of_ne (h : name ≠ b) :
    (fs.point b target hfree hlt).read name = fs.read name := by
  unfold read
  rw [inode_point_of_ne hfree hlt h]
  rfl

end Frame

theorem inode_remove_of_ne (h : name ≠ a) : (fs.remove a).inode name = fs.inode name :=
  inode_point_of_ne _ _ h

theorem read_remove_self : (fs.remove a).read a = none := by
  have ha : (fs.remove a).inode a = none := Function.update_self ..
  unfold read
  rw [ha, Option.map_none]

theorem read_remove_of_ne (h : name ≠ a) : (fs.remove a).read name = fs.read name :=
  read_point_of_ne _ _ h

theorem inode_create_self : (fs.create a).inode a = some (fs.handle a) := Function.update_self ..

theorem read_create_self : (fs.create a).read a = some [] := by
  unfold read
  rw [inode_create_self, Option.map_some]
  exact congrArg some (Function.update_self ..)

theorem inode_create_of_ne (h : name ≠ a) : (fs.create a).inode name = fs.inode name :=
  inode_point_of_ne _ _ h

theorem read_create_of_ne (h : name ≠ a) : (fs.create a).read name = fs.read name := by
  refine (read_point_of_ne _ _ h).trans ?_
  show (fs.inode name).map (Function.update fs.data _ []) = (fs.inode name).map fs.data
  cases hname : fs.inode name with
  | none => rfl
  | some i =>
    have hne : i ≠ fs.handle a := fun heq => fs.inode_ne_handle h (hname.trans (congrArg some heq))
    exact congrArg some (Function.update_of_ne hne _ _)

theorem inode_rename_of_ne (ha : name ≠ a) (hb : name ≠ b) :
    (fs.rename a b).inode name = fs.inode name :=
  (inode_point_of_ne _ _ hb).trans (inode_remove_of_ne ha)

theorem read_rename_of_ne (ha : name ≠ a) (hb : name ≠ b) :
    (fs.rename a b).read name = fs.read name :=
  (read_point_of_ne _ _ hb).trans (read_remove_of_ne ha)

/-- The file has its new name. -/
theorem read_rename : (fs.rename a b).read b = fs.read a := by
  have hb : (fs.rename a b).inode b = fs.inode a := Function.update_self ..
  unfold read
  rw [hb]
  rfl

end FileSystem
