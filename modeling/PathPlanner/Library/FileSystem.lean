import Mathlib.Data.List.Basic
import Mathlib.Logic.Function.Basic

/-!
# Files behind names

A file system maps names to files and files to their contents. A file that is open is reached by its
number, whatever happens to its name: replacing a file by another one changes what the name refers to
and leaves the contents of both as they are.

## Main definitions

* `FileSystem`: names and files, without hard links
* `content`: what is found under a name
* `truncated`, `append`, `rename`, `remove`: what processes do to files

## Main results

* `content_truncated`, `content_append`, `content_rename`: what is found under a name after them
* `contents_truncated_of_ne`, `contents_append_of_ne`: which files they leave alone
-/

/-- Names and files. Two names never refer to one file. -/
structure FileSystem (Name Byte : Type*) where
  names : Name → Option ℕ
  contents : ℕ → List Byte
  /-- The number of the next file. -/
  next : ℕ
  names_lt : ∀ name file, names name = some file → file < next
  names_inj : ∀ name other file, names name = some file → names other = some file → name = other

namespace FileSystem

variable {Name Byte : Type*} (fs : FileSystem Name Byte) {name other : Name} {file : ℕ}

/-- What is found under a name. -/
def content (name : Name) : Option (List Byte) := (fs.names name).map fs.contents

/-! ## Writing -/

/-- The bytes behind those of a file. -/
def append (file : ℕ) (bytes : List Byte) : FileSystem Name Byte :=
  { fs with contents := Function.update fs.contents file (fs.contents file ++ bytes) }

variable {fs}

@[simp] theorem names_append (file : ℕ) (bytes : List Byte) :
    (fs.append file bytes).names = fs.names := rfl

@[simp] theorem next_append (file : ℕ) (bytes : List Byte) :
    (fs.append file bytes).next = fs.next := rfl

@[simp] theorem contents_append (file : ℕ) (bytes : List Byte) :
    (fs.append file bytes).contents file = fs.contents file ++ bytes :=
  Function.update_self ..

theorem contents_append_of_ne {file' : ℕ} (h : file' ≠ file) (bytes : List Byte) :
    (fs.append file bytes).contents file' = fs.contents file' :=
  Function.update_of_ne h ..

theorem content_append_of_ne (h : other ≠ name) (hfile : fs.names name = some file)
    (bytes : List Byte) : (fs.append file bytes).content other = fs.content other := by
  unfold content
  rw [names_append]
  cases hother : fs.names other with
  | none => rfl
  | some file' =>
    apply congrArg some
    apply contents_append_of_ne
    rintro rfl
    exact h (fs.names_inj other name file' hother hfile)

/-! ## Names -/

variable [DecidableEq Name] (fs)

/-- A new file under the name, which the name did not refer to. -/
def created (name : Name) : FileSystem Name Byte where
  names := Function.update fs.names name (some fs.next)
  contents := Function.update fs.contents fs.next []
  next := fs.next + 1
  names_lt other file h := by
    rw [Function.update_apply] at h
    split_ifs at h
    · obtain rfl := Option.some.inj h
      exact Nat.lt_succ_self _
    · exact Nat.lt_succ_of_lt (fs.names_lt other file h)
  names_inj first second file hfirst hsecond := by
    rw [Function.update_apply] at hfirst hsecond
    split_ifs at hfirst hsecond with h h'
    · rw [h, h']
    -- the number of the new file is that of no other one
    · obtain rfl := Option.some.inj hfirst
      exact absurd (fs.names_lt second _ hsecond) (Nat.lt_irrefl _)
    · obtain rfl := Option.some.inj hsecond
      exact absurd (fs.names_lt first _ hfirst) (Nat.lt_irrefl _)
    · exact fs.names_inj first second file hfirst hsecond

/-- The file under the name, emptied, or a new one. -/
def truncated (name : Name) : ℕ × FileSystem Name Byte :=
  match fs.names name with
  | some file => (file, { fs with contents := Function.update fs.contents file [] })
  | none => (fs.next, fs.created name)

/-- The name refers to nothing. -/
def remove (name : Name) : FileSystem Name Byte where
  names := Function.update fs.names name none
  contents := fs.contents
  next := fs.next
  names_lt other file h := by
    rw [Function.update_apply] at h
    split_ifs at h
    exact fs.names_lt other file h
  names_inj first second file hfirst hsecond := by
    rw [Function.update_apply] at hfirst hsecond
    split_ifs at hfirst hsecond
    exact fs.names_inj first second file hfirst hsecond

/-- The file under one name goes under another one, in place of what that referred to. -/
def rename (name target : Name) : Option (FileSystem Name Byte) :=
  match h : fs.names name with
  | none => none
  | some file => some
    { names := Function.update (Function.update fs.names name none) target (some file)
      contents := fs.contents
      next := fs.next
      names_lt := fun other file' h' => by
        rw [Function.update_apply, Function.update_apply] at h'
        split_ifs at h'
        · obtain rfl := Option.some.inj h'
          exact fs.names_lt name file h
        · exact fs.names_lt other file' h'
      names_inj := fun first second file' hfirst hsecond => by
        rw [Function.update_apply, Function.update_apply] at hfirst hsecond
        split_ifs at hfirst hsecond with h₁ h₂ h₃ h₄ h₅ h₆
        · rw [h₁, h₂]
        · obtain rfl := Option.some.inj hfirst
          exact absurd (fs.names_inj second name file hsecond h) h₃
        · obtain rfl := Option.some.inj hsecond
          exact absurd (fs.names_inj first name file hfirst h) h₄
        · exact fs.names_inj first second file' hfirst hsecond }

/-! ## Truncation -/

theorem names_truncated (name : Name) :
    (fs.truncated name).2.names name = some (fs.truncated name).1 := by
  unfold truncated
  split
  · assumption
  · exact Function.update_self ..

theorem contents_truncated (name : Name) :
    (fs.truncated name).2.contents (fs.truncated name).1 = [] := by
  unfold truncated
  split <;> exact Function.update_self ..

theorem next_le_truncated (name : Name) : fs.next ≤ (fs.truncated name).2.next := by
  unfold truncated
  split
  · exact Nat.le_refl _
  · exact Nat.le_succ _

variable {fs}

theorem names_truncated_of_ne (h : other ≠ name) :
    (fs.truncated name).2.names other = fs.names other := by
  unfold truncated
  split
  · rfl
  · exact Function.update_of_ne h ..

/-- The files that the name does not refer to are left alone. -/
theorem contents_truncated_of_ne (h : fs.names name ≠ some file) (hlt : file < fs.next) :
    (fs.truncated name).2.contents file = fs.contents file := by
  unfold truncated
  split
  · next found hfound =>
    apply Function.update_of_ne
    rintro rfl
    exact h hfound
  · apply Function.update_of_ne
    exact Nat.ne_of_lt hlt

theorem content_truncated_of_ne (h : other ≠ name) :
    (fs.truncated name).2.content other = fs.content other := by
  unfold content
  rw [names_truncated_of_ne h]
  cases hother : fs.names other with
  | none => rfl
  | some file =>
    apply congrArg some
    apply contents_truncated_of_ne
    · intro hname
      exact h (fs.names_inj other name file hother hname)
    · exact fs.names_lt other file hother

/-! ## Renaming -/

/-- What becomes of the names when a file is renamed. -/
theorem rename_eq_some {target : Name} {fs' : FileSystem Name Byte}
    (h : fs.rename name target = some fs') : ∃ file, fs.names name = some file ∧
      fs'.names = Function.update (Function.update fs.names name none) target (some file) ∧
      fs'.contents = fs.contents ∧ fs'.next = fs.next := by
  unfold rename at h
  split at h
  · cases h
  · next file hfile =>
    obtain rfl := Option.some.inj h
    exact ⟨file, hfile, rfl, rfl, rfl⟩

/-- **A renamed file replaces** what its new name referred to. -/
theorem content_rename {target : Name} {fs' : FileSystem Name Byte}
    (h : fs.rename name target = some fs') : fs'.content target = fs.content name := by
  obtain ⟨file, hfile, hnames, hcontents, -⟩ := rename_eq_some h
  unfold content
  rw [hnames, hcontents, Function.update_self, hfile]

theorem names_rename_source {target : Name} {fs' : FileSystem Name Byte}
    (h : fs.rename name target = some fs') (hne : name ≠ target) : fs'.names name = none := by
  obtain ⟨file, -, hnames, -, -⟩ := rename_eq_some h
  rw [hnames, Function.update_of_ne hne, Function.update_self]

/-! ## Removal -/

@[simp] theorem names_remove (name : Name) : (fs.remove name).names name = none :=
  Function.update_self ..

@[simp] theorem contents_remove (name : Name) : (fs.remove name).contents = fs.contents := rfl

@[simp] theorem next_remove (name : Name) : (fs.remove name).next = fs.next := rfl

theorem content_remove_of_ne (h : other ≠ name) :
    (fs.remove name).content other = fs.content other := by
  unfold content remove
  dsimp only
  rw [Function.update_of_ne h]

end FileSystem
