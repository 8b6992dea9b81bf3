import NativeGlue.Disk.Basic
import NativeGlue.Proofs.Traversal

/-!
# What making directories and writing a file change

Making directories keeps every place as it is and brings no file.  Writing a
file changes the one place that its path leads to, and reading the path
afterwards gives back what was written.  Each change is first described at one
place; runs of changes then follow by transitivity.
-/

namespace NativeGlue.Disk

/-- A text is read back from its bytes. -/
@[simp] theorem textOf_toUTF8 (s : String) : textOf s.toUTF8 = .ok s := by
  unfold textOf String.fromUTF8?
  rw [String.toUTF8_eq_toByteArray, dif_pos s.isValidUTF8]
  rfl

namespace Tree

/-! ## Programs on a tree -/

section Programs

variable {ε ε' α β : Type} {t t' : Tree}

theorem eval_bind_of_ok
    {program : ExceptT ε (StateM Tree) α} {next : α → ExceptT ε (StateM Tree) β}
    {a : α} (h : t.eval program = (.ok a, t')) :
    t.eval (program >>= next) = t'.eval (next a) := by
  unfold eval at h ⊢
  rw [ExceptT.run_bind, StateT.run_bind, h]
  rfl

theorem eval_bind_of_error
    {program : ExceptT ε (StateM Tree) α} {next : α → ExceptT ε (StateM Tree) β}
    {e : ε} (h : t.eval program = (.error e, t')) :
    t.eval (program >>= next) = (.error e, t') := by
  unfold eval at h ⊢
  rw [ExceptT.run_bind, StateT.run_bind, h]
  rfl

/-- A program that leaves the tree as it is can be evaluated without it. -/
theorem eval_bind_of_reads
    {program : ExceptT ε (StateM Tree) α} {next : α → ExceptT ε (StateM Tree) β}
    {x : Except ε α} {f : α → Except ε β} (h : t.eval program = (x, t))
    (hnext : ∀ a, t.eval (next a) = (f a, t)) :
    t.eval (program >>= next) = (x >>= f, t) := by
  cases x with
  | error e => exact eval_bind_of_error h
  | ok a => exact (eval_bind_of_ok h).trans (hnext a)

@[simp] theorem eval_adapt
    (t : Tree) (f : ε → ε') (program : ExceptT ε (StateM Tree) α) :
    t.eval (ExceptT.adapt f program) =
      ((t.eval program).1.mapError f, (t.eval program).2) := rfl

@[simp] theorem eval_liftM (t : Tree) (x : Except ε α) :
    t.eval (liftM x) = (x, t) := rfl

@[simp] theorem eval_change (t : Tree) (edit : Tree → Edit) :
    t.eval (change edit) = ((edit t).outcome, (edit t).tree) := rfl

/-- The changes that a program makes come to what the program gives. -/
theorem eval_eq_ofProgram
    (t : Tree) (program : ExceptT OsError (StateM Tree) Unit) :
    t.eval program =
      ((Edit.ofProgram t program).outcome,
        (Edit.ofProgram t program).tree) := by
  unfold Edit.ofProgram
  generalize t.eval program = result
  obtain ⟨outcome, changed⟩ := result
  cases outcome with
  | ok done => rfl
  | error e => rfl

end Programs

/-! ## Single places -/

theorem lookup_filter_ne
    {p q : Place} (hne : q ≠ p) (nodes : List (Place × Node)) :
    (nodes.filter (·.1 ≠ p)).lookup q = nodes.lookup q := by
  induction nodes with
  | nil => rfl
  | cons entry rest ih =>
      obtain ⟨place, node⟩ := entry
      by_cases hplace : place = p
      · subst hplace
        have hq : (q == place) = false := beq_false_of_ne hne
        rw [List.filter_cons_of_neg (by simp), ih, List.lookup_cons, hq]
      · rw [List.filter_cons_of_pos (by simpa using hplace), List.lookup_cons,
          List.lookup_cons, ih]

theorem node?_put_of_ne
    (t : Tree) {p q : Place} (hne : q ≠ p) (node : Node) :
    (t.put p node).node? q = t.node? q := by
  have hq : (q == p) = false := beq_false_of_ne hne
  unfold node? put
  dsimp only
  rw [List.lookup_cons, hq, lookup_filter_ne hne]

theorem node?_put_self
    {t : Tree} {p : Place} (hp : t.node? p ≠ some .directory) (node : Node) :
    (t.put p node).node? p = some node := by
  have hancestor : ¬p.isAncestor = true := by
    intro hancestor
    exact hp (if_pos hancestor)
  unfold node? put
  rw [if_neg hancestor, List.lookup_cons_self]

theorem child?_eq_ok_iff
    {t : Tree} {p : Place} {name : String} {node : Option Node} :
    t.child? p name = .ok node ↔
      ¬maxNameBytes < name.utf8ByteSize ∧ t.node? (p ++ [name]) = node := by
  unfold child?
  by_cases hlong : maxNameBytes < name.utf8ByteSize
  · simp [hlong]
  · simp [hlong]

/-! ## Making directories -/

/-- Another tree holds all that a tree holds, and it holds no other files. -/
structure Extends (t t' : Tree) : Prop where
  kept : ∀ p node, t.node? p = some node → t'.node? p = some node
  files : ∀ p contents,
    t'.node? p = some (.file contents) → t.node? p = some (.file contents)

theorem Extends.refl (t : Tree) : t.Extends t :=
  ⟨fun _ _ h => h, fun _ _ h => h⟩

theorem Extends.trans
    {t t' t'' : Tree} (h : t.Extends t') (h' : t'.Extends t'') :
    t.Extends t'' :=
  ⟨fun p node hp => h'.kept p node (h.kept p node hp),
    fun p contents hp => h.files p contents (h'.files p contents hp)⟩

theorem extends_put_directory
    {t : Tree} {p : Place} (hp : t.node? p = none) :
    t.Extends (t.put p .directory) := by
  have hself : (t.put p .directory).node? p = some .directory :=
    node?_put_self (by simp [hp]) .directory
  constructor
  · intro q node hq
    have hne : q ≠ p := by
      rintro rfl
      simp [hp] at hq
    rw [node?_put_of_ne t hne, hq]
  · intro q contents hq
    have hne : q ≠ p := by
      rintro rfl
      simp [hself] at hq
    rwa [node?_put_of_ne t hne] at hq

theorem makeDirectory_extends
    {t t' : Tree} {start : Place} {pieces : List String}
    (h : t.makeDirectory start pieces = .ok t') :
    t.Extends t' := by
  obtain ⟨target, -, h⟩ := bind_eq_ok_iff.mp h
  cases target with
  | directory place => cases h
  | child directory name =>
      obtain ⟨found, hfound, h⟩ := bind_eq_ok_iff.mp h
      cases found with
      | some node => cases h
      | none =>
          obtain rfl := Except.ok.inj h
          exact extends_put_directory (child?_eq_ok_iff.mp hfound).2

theorem ensureDirectory_extends
    {t t' : Tree} {start : Place} {pieces : List String}
    (h : t.ensureDirectory start pieces = .ok t') :
    t.Extends t' := by
  unfold ensureDirectory at h
  split at h
  · next made hmade =>
      obtain rfl := Except.ok.inj h
      exact makeDirectory_extends hmade
  · split at h
    · obtain rfl := Except.ok.inj h
      exact Extends.refl t
    · cases h

theorem extends_ofExcept
    {t : Tree} {change : Except OsError Tree}
    (h : ∀ t', change = .ok t' → t.Extends t') :
    t.Extends (Edit.ofExcept t change).tree := by
  cases change with
  | error e => exact Extends.refl t
  | ok t' => exact h t' rfl

theorem extends_andThen
    {t : Tree} {e : Edit} {next : Tree → Edit} (he : t.Extends e.tree)
    (hnext : e.tree.Extends (next e.tree).tree) :
    t.Extends (e.andThen next).tree := by
  unfold Edit.andThen
  cases e.failure with
  | none => exact he.trans hnext
  | some _ => exact he

theorem makeAncestors_extends
    (start : Place) (above : List String) (t : Tree) :
    t.Extends (makeAncestors start above t).tree := by
  induction above with
  | nil => exact Extends.refl t
  | cons piece above ih =>
      unfold makeAncestors
      split
      · apply extends_andThen ih
        exact extends_ofExcept fun _ => ensureDirectory_extends
      · exact extends_ofExcept fun _ => ensureDirectory_extends

/-- Making directories, even if it stops half-way, keeps what is there and
brings no file. -/
theorem makeDirectories_extends (t : Tree) (path : String) :
    t.Extends (t.makeDirectories path).tree := by
  unfold makeDirectories
  split
  · exact Extends.refl t
  · split
    · exact Extends.refl t
    · dsimp only
      split
      · apply extends_andThen (makeAncestors_extends _ _ t)
        exact extends_ofExcept fun _ => ensureDirectory_extends
      · exact extends_ofExcept fun _ => ensureDirectory_extends

/-! ## Writing a file -/

/-- The place of a file that a path leads to. -/
def LeadsTo (t : Tree) (path : String) (place : Place) : Prop :=
  ∃ directory name,
    t.target (Place.start path) (pieces path) = .ok (.child directory name) ∧
      place = directory ++ [name]

/-- What leads through directories does not notice a change at a place that is
no directory. -/
theorem walk_put
    {t : Tree} {place : Place} (hplace : t.node? place ≠ some .directory)
    (node : Node) {start p : Place} {pieces : List String}
    (h : t.walk start pieces = .ok p) :
    (t.put place node).walk start pieces = .ok p := by
  induction pieces generalizing start with
  | nil => exact h
  | cons piece rest ih =>
      unfold walk at h ⊢
      split at h
      · next hdot =>
          rw [if_pos hdot]
          exact ih h
      next hdot =>
      rw [if_neg hdot]
      split at h
      · next hdots =>
          rw [if_pos hdots]
          exact ih h
      next hdots =>
      rw [if_neg hdots]
      obtain ⟨found, hfound, h⟩ := bind_eq_ok_iff.mp h
      cases found with
      | none => cases h
      | some found =>
          cases found with
          | file contents => cases h
          | directory =>
              obtain ⟨hname, hdirectory⟩ := child?_eq_ok_iff.mp hfound
              have hne : start ++ [piece] ≠ place := by
                rintro rfl
                exact hplace hdirectory
              have hchild : (t.put place node).child? start piece =
                  .ok (some .directory) := by
                rw [child?_eq_ok_iff, node?_put_of_ne t hne]
                exact ⟨hname, hdirectory⟩
              exact bind_eq_ok_iff.mpr ⟨_, hchild, ih h⟩

theorem target_put
    {t : Tree} {place : Place} (hplace : t.node? place ≠ some .directory)
    (node : Node) {start : Place} {pieces : List String} {found : Target}
    (h : t.target start pieces = .ok found) :
    (t.put place node).target start pieces = .ok found := by
  unfold target at h ⊢
  cases hlast : pieces.getLast? with
  | none =>
      rw [hlast] at h
      exact h
  | some last =>
      rw [hlast] at h
      dsimp only at h ⊢
      split at h
      · next hdots =>
          rw [if_pos hdots]
          obtain ⟨p, hp, h⟩ := bind_eq_ok_iff.mp h
          exact bind_eq_ok_iff.mpr ⟨p, walk_put hplace node hp, h⟩
      · next hdots =>
          rw [if_neg hdots]
          obtain ⟨p, hp, h⟩ := bind_eq_ok_iff.mp h
          exact bind_eq_ok_iff.mpr ⟨p, walk_put hplace node hp, h⟩

/-- What a successful write does: the path is one of a file, which is not a
directory yet, and its place takes the contents. -/
theorem write_eq_ok
    {t t' : Tree} {path : String} {contents : ByteArray}
    (h : t.write path contents = .ok t') :
    ∃ directory name,
      checkPath path = .ok () ∧
      t.target (Place.start path) (pieces path) = .ok (.child directory name) ∧
      ¬maxNameBytes < name.utf8ByteSize ∧
      t.node? (directory ++ [name]) ≠ some .directory ∧
      endsInSlash path = false ∧
      t' = t.put (directory ++ [name]) (.file contents) := by
  obtain ⟨⟨⟩, hcheck, h⟩ := bind_eq_ok_iff.mp h
  obtain ⟨target, htarget, h⟩ := bind_eq_ok_iff.mp h
  cases target with
  | directory place => cases h
  | child directory name =>
      obtain ⟨found, hfound, h⟩ := bind_eq_ok_iff.mp h
      obtain ⟨hname, hnode⟩ := child?_eq_ok_iff.mp hfound
      refine ⟨directory, name, hcheck, htarget, hname, ?_⟩
      rw [hnode]
      cases hslash : endsInSlash path with
      | true =>
          rw [hslash] at h
          cases found with
          | none => cases h
          | some found => cases found <;> cases h
      | false =>
          rw [hslash] at h
          cases found with
          | none => exact ⟨by simp, rfl, (Except.ok.inj h).symm⟩
          | some found =>
              cases found with
              | directory => cases h
              | file before => exact ⟨by simp, rfl, (Except.ok.inj h).symm⟩

theorem read_eq_ok_of_file
    {t : Tree} {path name : String} {directory : Place} {contents : ByteArray}
    (hcheck : checkPath path = .ok ())
    (htarget :
      t.target (Place.start path) (pieces path) = .ok (.child directory name))
    (hname : ¬maxNameBytes < name.utf8ByteSize)
    (hnode : t.node? (directory ++ [name]) = some (.file contents))
    (hslash : endsInSlash path = false) :
    t.read path = .ok contents := by
  have hchild : t.child? directory name = .ok (some (.file contents)) :=
    child?_eq_ok_iff.mpr ⟨hname, hnode⟩
  refine bind_eq_ok_iff.mpr ⟨(), hcheck, bind_eq_ok_iff.mpr ⟨_, htarget,
    bind_eq_ok_iff.mpr ⟨_, hchild, ?_⟩⟩⟩
  dsimp only
  rw [hslash]
  rfl

/-- One tree comes from another by writing one file, and perhaps by making
directories: the path leads to the place of the file and reads as the contents,
every other place holds the same file as before or none as before, and no
directory is lost. -/
structure WritesOnly (t t' : Tree) (path : String) (contents : ByteArray) :
    Prop where
  written : t'.read path = .ok contents
  others : ∃ place, t'.LeadsTo path place ∧
    ∀ p, p ≠ place → ∀ other,
      t'.node? p = some (.file other) ↔ t.node? p = some (.file other)
  directories : ∀ p, t.node? p = some .directory → t'.node? p = some .directory

theorem write_writesOnly
    {t t' : Tree} {path : String} {contents : ByteArray}
    (h : t.write path contents = .ok t') :
    t.WritesOnly t' path contents := by
  obtain ⟨directory, name, hcheck, htarget, hname, hnode, hslash, rfl⟩ :=
    write_eq_ok h
  have hself := node?_put_self hnode (.file contents)
  have hleads := target_put hnode (.file contents) htarget
  constructor
  · exact read_eq_ok_of_file hcheck hleads hname hself hslash
  · refine ⟨directory ++ [name], ⟨directory, name, hleads, rfl⟩, ?_⟩
    intro p hp other
    rw [node?_put_of_ne t hp]
  · intro p hp
    have hne : p ≠ directory ++ [name] := by
      rintro rfl
      exact hnode hp
    rw [node?_put_of_ne t hne, hp]

theorem Extends.writesOnly
    {t made t' : Tree} {path : String} {contents : ByteArray}
    (h : t.Extends made) (hwrite : made.WritesOnly t' path contents) :
    t.WritesOnly t' path contents := by
  obtain ⟨hwritten, ⟨place, hleads, hothers⟩, hdirectories⟩ := hwrite
  refine ⟨hwritten, ⟨place, hleads, ?_⟩, ?_⟩
  · intro p hp other
    rw [hothers p hp other]
    exact ⟨h.files p other, h.kept p _⟩
  · intro p hp
    exact hdirectories p (h.kept p _ hp)

end Tree

end NativeGlue.Disk
