/-! # Symbolic links

Directories hold entries under names: files, links and directories. A path is looked up from a directory and names a place
there; a link is followed from the directory that it is in. -/

namespace Files

inductive Entry (Path Inode : Type)
  | file (inode : Inode)
  | link (target : Path)
  | directory

abbrev Entries (Dir Name Path Inode : Type) := Dir → Name → Option (Entry Path Inode)

section
variable {Dir Name Path Inode : Type}

/-- From the directory the path leads to the file, perhaps over links. -/
inductive Resolves (locate : Dir → Path → Option (Dir × Name)) (entries : Entries Dir Name Path Inode) :
    Dir → Path → Inode → Prop
  | file {d d' : Dir} {path : Path} {name : Name} {inode : Inode} (hplace : locate d path = some (d', name))
      (hentry : entries d' name = some (.file inode)) : Resolves locate entries d path inode
  | link {d d' : Dir} {path target : Path} {name : Name} {inode : Inode} (hplace : locate d path = some (d', name))
      (hentry : entries d' name = some (.link target)) (hnext : Resolves locate entries d' target inode) :
      Resolves locate entries d path inode

variable {locate : Dir → Path → Option (Dir × Name)} {entries : Entries Dir Name Path Inode}

/-- There is no way over links but to a file. -/
theorem Resolves.exists_file {d : Dir} {path : Path} {inode : Inode} (h : Resolves locate entries d path inode) :
    ∃ d' name, entries d' name = some (.file inode) := by
  induction h with
  | file _ hentry => exact ⟨_, _, hentry⟩
  | link _ _ _ ih => exact ih

/-- What leads to a file names an entry. -/
theorem Resolves.exists_place {d : Dir} {path : Path} {inode : Inode} (h : Resolves locate entries d path inode) :
    ∃ d' name, locate d path = some (d', name) ∧
      (entries d' name = some (.file inode) ∨ ∃ target, entries d' name = some (.link target)) := by
  cases h with
  | file hplace hentry => exact ⟨_, _, hplace, Or.inl hentry⟩
  | link hplace hentry _ => exact ⟨_, _, hplace, Or.inr ⟨_, hentry⟩⟩

/-! ### A new entry -/

variable [DecidableEq Dir] [DecidableEq Name]

/-- What was there is removed. -/
def put (entries : Entries Dir Name Path Inode) (d : Dir) (name : Name) (entry : Entry Path Inode) :
    Entries Dir Name Path Inode :=
  fun d' name' => if d' = d ∧ name' = name then some entry else entries d' name'

theorem put_same (d : Dir) (name : Name) (entry : Entry Path Inode) : put entries d name entry d name = some entry :=
  if_pos ⟨rfl, rfl⟩

theorem put_of_name {d d' : Dir} {name name' : Name} {entry : Entry Path Inode} (h : name' ≠ name) :
    put entries d name entry d' name' = entries d' name' := if_neg fun heq => h heq.2

theorem put_of_dir {d d' : Dir} {name name' : Name} {entry : Entry Path Inode} (h : d' ≠ d) :
    put entries d name entry d' name' = entries d' name' := if_neg fun heq => h heq.1

/-- A file that is found among the entries behind a new link was there. -/
theorem file_of_put {d d' : Dir} {name name' : Name} {target : Path} {inode : Inode}
    (h : put entries d name (.link target) d' name' = some (.file inode)) :
    entries d' name' = some (.file inode) ∧ ¬ (d' = d ∧ name' = name) := by
  by_cases hsame : d' = d ∧ name' = name
  · rw [put, if_pos hsame] at h
    cases h
  · rw [put, if_neg hsame] at h
    exact ⟨h, hsame⟩

/-- A link behind a new link is this one, or was there. -/
theorem link_of_put {d d' : Dir} {name name' : Name} {target target' : Path}
    (h : put entries d name (.link target) d' name' = some (.link target')) :
    d' = d ∧ name' = name ∧ target' = target ∨ entries d' name' = some (.link target') := by
  by_cases hsame : d' = d ∧ name' = name
  · rw [put, if_pos hsame] at h
    cases h
    exact Or.inl ⟨hsame.1, hsame.2, rfl⟩
  · rw [put, if_neg hsame] at h
    exact Or.inr h

end

end Files
