import OpenraftSurrealkv.Merge.BaselineCopy
import OpenraftSurrealkv.Merge.Executor

/-!
# The copy of the baseline is complete

The copy of a directory goes through its names one by one.  In between, the names
that are done read as in the source, the names to come are missing in the
destination, and outside the destination nothing has changed (`Progress`).  The
recursion into a subdirectory is the same statement one level down, so the induction
is on the depth.

A file is placed by a hard link or by a copy.  Either way the destination reads as
the source does there, so the pattern of failing links does not show.
-/

namespace OpenraftSurrealkv

open Postcard FileTree

namespace DiskOp

/-! ## Calls that do not fail -/

def withTree (d : Disk) (t : FileTree String Bytes) : Disk := { d with tree := t }

theorem external_quiet {d : Disk} (h : d.faults = []) : external d = (.ok (), d) := by
  obtain ⟨tree, links, faults⟩ := d
  cases h
  rfl

/-- A place where a directory is or can be made. -/
inductive DirOrFree (t : FileTree String Bytes) : Path → Prop
  | dir {p : Path} : t.item p = some .dir → DirOrFree t p
  | free {name : String} {p : Path} : t.item p = some .dir → t.item (name :: p) = none →
      DirOrFree t (name :: p)

theorem makeDirs_dir {d : Disk} {p : Path} (h : d.tree.item p = some .dir) :
    makeDirs p d = (.ok (), d) := by
  cases p with
  | nil => rfl
  | cons name p =>
      rw [makeDirs, Eff.bind_of_ok (Eff.gets_run Disk.tree d)]
      simp only [item_eq_dir_iff.mp h]
      rfl

theorem makeDirs_free {d : Disk} {name : String} {p : Path} (hdir : d.tree.item p = some .dir)
    (hfree : d.tree.item (name :: p) = none) :
    ∃ t, makeDirs (name :: p) d = (.ok (), withTree d t) ∧ Added d.tree t (name :: p) .dir := by
  obtain ⟨t, hmkdir, hadded⟩ := exists_mkdir hdir hfree
  refine ⟨t, ?_, hadded⟩
  rw [makeDirs, Eff.bind_of_ok (Eff.gets_run Disk.tree d)]
  simp only [item_eq_dir_iff.mp hdir, item_eq_none_iff.mp hfree, hmkdir]
  rfl

theorem createDirAll_quiet {d : Disk} {p : Path} (hcalls : d.faults = [])
    (h : DirOrFree d.tree p) :
    ∃ t, createDirAll p d = (.ok (), withTree d t) ∧ t.item p = some .dir ∧
      ∀ q, q ≠ p → t.item q = d.tree.item q := by
  rw [createDirAll, Eff.bind_of_ok (external_quiet hcalls)]
  cases h with
  | dir hdir => exact ⟨d.tree, makeDirs_dir hdir, hdir, fun q _ => rfl⟩
  | free hdir hfree =>
      obtain ⟨t, hrun, hadded⟩ := makeDirs_free hdir hfree
      exact ⟨t, hrun, hadded.self, hadded.others⟩

theorem readDir_quiet {readOrder : Path → List String → List String} {d : Disk} {p : Path}
    (hcalls : d.faults = []) (hdir : d.tree.item p = some .dir) :
    readDir readOrder p d = (.ok (readOrder p (d.tree.names p)), d) := by
  rw [readDir, Eff.bind_of_ok (external_quiet hcalls), Eff.bind_of_ok (Eff.gets_run Disk.tree d)]
  simp only [item_eq_dir_iff.mp hdir]
  rfl

theorem fileType_quiet {d : Disk} {p : Path} {node : FileNode} (hcalls : d.faults = [])
    (h : d.tree.nodes[p]? = some node) : fileType p d = (.ok node, d) := by
  rw [fileType, Eff.bind_of_ok (external_quiet hcalls), Eff.bind_of_ok (Eff.gets_run Disk.tree d)]
  simp only [h]
  rfl

/-! ## Placing a file -/

/-- Only the outcomes to come change when a link is tried. -/
theorem linkOutcome_cases (d : Disk) :
    ∃ calls, linkOutcome d = (.ok (), { d with links := calls }) ∨
      ∃ e, linkOutcome d = (.error e, { d with links := calls }) := by
  obtain ⟨tree, links, faults⟩ := d
  rcases links with _ | ⟨_ | text, calls⟩
  · exact ⟨[], Or.inl rfl⟩
  · exact ⟨calls, Or.inl rfl⟩
  · exact ⟨calls, Or.inr ⟨_, rfl⟩⟩

section

variable {d : Disk} {src p : Path} {name : String} {content : Bytes}

theorem copy_quiet (hcalls : d.faults = []) (hsrc : d.tree.item src = some (.file content))
    (hdir : d.tree.item p = some .dir) (hfree : d.tree.item (name :: p) = none) :
    ∃ t, copy src (name :: p) d = (.ok (), withTree d t) ∧
      Added d.tree t (name :: p) (.file content) := by
  obtain ⟨i, hnode, hi⟩ := exists_of_item_file hsrc
  obtain ⟨t, hcreate, hadded⟩ := exists_create content hdir hfree
  refine ⟨t, ?_, hadded⟩
  rw [copy, Eff.bind_of_ok (external_quiet hcalls), Eff.bind_of_ok (Eff.gets_run Disk.tree d)]
  simp only [hnode, item_eq_none_iff.mp hfree, hi, Option.getD_some, hcreate]
  rfl

/-- A link shows the content, or is not made and changes nothing. -/
theorem hardLink_cases (hsrc : d.tree.item src = some (.file content))
    (hdir : d.tree.item p = some .dir) (hfree : d.tree.item (name :: p) = none) :
    ∃ calls, (∃ t, hardLink src (name :: p) d = (.ok (), withTree { d with links := calls } t) ∧
        Added d.tree t (name :: p) (.file content)) ∨
      ∃ e, hardLink src (name :: p) d = (.error e, { d with links := calls }) := by
  obtain ⟨calls, hok | ⟨e, herr⟩⟩ := linkOutcome_cases d
  · obtain ⟨i, hnode, _⟩ := exists_of_item_file hsrc
    obtain ⟨t, hlink, hadded⟩ := exists_link hsrc hdir hfree
    refine ⟨calls, Or.inl ⟨t, ?_, hadded⟩⟩
    rw [hardLink, Eff.bind_of_ok hok, Eff.bind_of_ok (Eff.gets_run Disk.tree _)]
    simp only [hnode, item_eq_none_iff.mp hfree, hlink]
    rfl
  · refine ⟨calls, Or.inr ⟨e, ?_⟩⟩
    rw [hardLink, Eff.bind_of_error herr]

end

end DiskOp

namespace CheckpointMergeBackend

open DiskOp

/-! ## What a copy needs and does -/

/-- Directories and files alone, of a depth below the fuel. -/
structure PlainBelow (t : FileTree String Bytes) (fuel : Nat) (src : Path) : Prop where
  plain : ∀ rel, t.item (rel ++ src) ≠ some .other
  shallow : ∀ rel, t.item (rel ++ src) ≠ none → rel.length < fuel

/-- A directory to copy, and a place for the copy outside of it with nothing in it. -/
structure Copyable (fuel : Nat) (d : Disk) (src dst : Path) : Prop where
  calls : d.faults = []
  dir : d.tree.item src = some .dir
  source : PlainBelow d.tree fuel src
  place : DirOrFree d.tree dst
  empty : ∀ name, d.tree.item (name :: dst) = none
  apart : Apart src dst

/-- The operation succeeds, the destination reads as the source did and nothing else changes. -/
def Copies (x : DiskOp Unit) (src dst : Path) (d : Disk) : Prop :=
  ∃ d', x d = (.ok (), d') ∧ d'.faults = [] ∧ CopiedTo d.tree d'.tree src dst ∧
    SameOutside d.tree d'.tree dst

theorem PlainBelow.cons {t : FileTree String Bytes} {fuel : Nat} {src : Path}
    (h : PlainBelow t (fuel + 1) src) (name : String) : PlainBelow t fuel (name :: src) where
  plain := by
    intro rel
    rw [List.append_cons]
    exact h.plain (rel ++ [name])
  shallow := by
    intro rel hrel
    rw [List.append_cons] at hrel
    have hlt := h.shallow (rel ++ [name]) hrel
    rw [List.length_append, List.length_singleton] at hlt
    omega

theorem PlainBelow.congr {t t' : FileTree String Bytes} {fuel : Nat} {src : Path}
    (h : PlainBelow t fuel src) (heq : ∀ rel, t'.item (rel ++ src) = t.item (rel ++ src)) :
    PlainBelow t' fuel src where
  plain := by
    intro rel
    rw [heq]
    exact h.plain rel
  shallow := by
    intro rel hrel
    rw [heq] at hrel
    exact h.shallow rel hrel

/-! ## One entry -/

section

variable {copyDir : Path → Path → DiskOp Unit} {fuel : Nat} {d : Disk} {src dst : Path}
  {name : String}

theorem copyEntry_dir (hcalls : d.faults = []) (hdir : d.tree.item (name :: src) = some .dir) :
    copyEntry copyDir src dst name d = copyDir (name :: src) (name :: dst) d := by
  rw [copyEntry, Eff.bind_of_ok (external_quiet hcalls),
    Eff.bind_of_ok (fileType_quiet hcalls (item_eq_dir_iff.mp hdir))]

theorem copyEntry_file {content : Bytes} (hcalls : d.faults = [])
    (hfile : d.tree.item (name :: src) = some (.file content)) :
    copyEntry copyDir src dst name d = hardlinkOrCopy (name :: src) (name :: dst) d := by
  obtain ⟨i, hnode, _⟩ := exists_of_item_file hfile
  rw [copyEntry, Eff.bind_of_ok (external_quiet hcalls),
    Eff.bind_of_ok (fileType_quiet hcalls hnode)]

/-- However the link ends, the file is there. -/
theorem hardlinkOrCopy_copies {content : Bytes} (hcalls : d.faults = [])
    (hsrc : d.tree.item src = some (.file content)) (hdir : d.tree.item dst = some .dir)
    (hfree : d.tree.item (name :: dst) = none) :
    Copies (hardlinkOrCopy src (name :: dst)) src (name :: dst) d := by
  rw [Copies, hardlinkOrCopy, Eff.bind_of_ok (Eff.attempt_run _ d)]
  obtain ⟨calls, ⟨t, hrun, hadded⟩ | ⟨e, hrun⟩⟩ := hardLink_cases hsrc hdir hfree
  · rw [hrun]
    exact ⟨_, rfl, hcalls, hadded.copiedTo hsrc, hadded.sameOutside⟩
  · rw [hrun]
    obtain ⟨t, hcopy, hadded⟩ := copy_quiet (d := { d with links := calls }) hcalls hsrc hdir hfree
    exact ⟨_, hcopy, hcalls, hadded.copiedTo hsrc, hadded.sameOutside⟩

theorem copyEntry_copies (hcopy : ∀ src dst d, Copyable fuel d src dst →
      Copies (copyDir src dst) src dst d) (hcalls : d.faults = [])
    (hplain : PlainBelow d.tree (fuel + 1) src) (hapart : Apart src dst)
    (hentry : d.tree.item (name :: src) ≠ none) (hdir : d.tree.item dst = some .dir)
    (hfree : d.tree.item (name :: dst) = none) :
    Copies (copyEntry copyDir src dst name) (name :: src) (name :: dst) d := by
  rw [Copies]
  rcases hitem : d.tree.item (name :: src) with _ | _ | content | _
  · exact absurd hitem hentry
  · rw [copyEntry_dir hcalls hitem]
    exact hcopy (name :: src) (name :: dst) d {
      calls := hcalls
      dir := hitem
      source := hplain.cons name
      place := .free hdir hfree
      empty := fun name' => item_append_eq_none hfree [name']
      apart := hapart.cons name }
  · rw [copyEntry_file hcalls hitem]
    exact hardlinkOrCopy_copies hcalls hitem hdir hfree
  · exact absurd hitem (hplain.plain [name])

end

/-! ## All entries -/

/-- The copy of a directory, from the tree `t₀` on, with some of its names to come. -/
structure Progress (t₀ t : FileTree String Bytes) (src dst : Path) (todo : List String) :
    Prop where
  outside : SameOutside t₀ t dst
  dir : t.item dst = some .dir
  copied : ∀ name, name ∉ todo → CopiedTo t₀ t (name :: src) (name :: dst)
  free : ∀ name ∈ todo, t.item (name :: dst) = none

theorem Progress.source_eq {t₀ t : FileTree String Bytes} {src dst : Path} {todo : List String}
    (h : Progress t₀ t src dst todo) (hapart : Apart src dst) (rel : Path) :
    t.item (rel ++ src) = t₀.item (rel ++ src) :=
  h.outside _ (hapart.not_suffix rel)

theorem Progress.step {t₀ t t' : FileTree String Bytes} {src dst : Path} {name : String}
    {todo : List String} (h : Progress t₀ t src dst (name :: todo)) (hname : name ∉ todo)
    (hapart : Apart src dst) (hcopied : CopiedTo t t' (name :: src) (name :: dst))
    (hsame : SameOutside t t' (name :: dst)) : Progress t₀ t' src dst todo where
  outside := h.outside.trans hsame.of_cons
  dir := by
    rw [hsame dst fun hsuffix => ?_]
    · exact h.dir
    · have hle := hsuffix.length_le
      simp at hle
  copied := by
    intro name' hname' rel
    by_cases heq : name' = name
    · subst heq
      rw [hcopied rel, List.append_cons]
      exact h.source_eq hapart (rel ++ [name'])
    · rw [hsame _ (not_suffix_of_name_ne (Ne.symm heq) rel dst)]
      exact h.copied name' (by simp [heq, hname']) rel
  free := by
    intro name' hname'
    have hne : name ≠ name' := fun heq => hname (heq ▸ hname')
    have hkept := hsame (name' :: dst) (not_suffix_of_name_ne hne [] dst)
    exact hkept.trans (h.free name' (List.mem_cons_of_mem name hname'))

/-- When no name is left, the directory is copied. -/
theorem Progress.copiedTo {t₀ t : FileTree String Bytes} {src dst : Path}
    (h : Progress t₀ t src dst []) (hdir : t₀.item src = some .dir) : CopiedTo t₀ t src dst := by
  intro rel
  rcases List.eq_nil_or_concat rel with rfl | ⟨rel, name, rfl⟩
  · exact h.dir.trans hdir.symm
  · rw [List.concat_eq_append, ← List.append_cons, ← List.append_cons]
    exact h.copied name List.not_mem_nil rel

theorem copyEntries_progress {copyDir : Path → Path → DiskOp Unit} {fuel : Nat}
    {t₀ : FileTree String Bytes} {src dst : Path}
    (hcopy : ∀ src dst d, Copyable fuel d src dst → Copies (copyDir src dst) src dst d)
    (hplain : PlainBelow t₀ (fuel + 1) src) (hapart : Apart src dst) (todo : List String) :
    ∀ d : Disk, todo.Nodup → d.faults = [] → (∀ name ∈ todo, t₀.item (name :: src) ≠ none) →
      Progress t₀ d.tree src dst todo →
      ∃ d', copyEntries copyDir src dst todo d = (.ok (), d') ∧ d'.faults = [] ∧
        Progress t₀ d'.tree src dst [] := by
  induction todo with
  | nil => exact fun d _ hcalls _ hprogress => ⟨d, rfl, hcalls, hprogress⟩
  | cons name todo ih =>
      intro d hnodup hcalls hentries hprogress
      obtain ⟨hname, hnodup⟩ := List.nodup_cons.mp hnodup
      have hsource := hprogress.source_eq hapart
      have hentry : d.tree.item (name :: src) ≠ none := by
        rw [show d.tree.item (name :: src) = t₀.item (name :: src) from hsource [name]]
        exact hentries name List.mem_cons_self
      obtain ⟨d₁, hrun, hcalls₁, hcopied, hsame⟩ := copyEntry_copies hcopy hcalls
        (hplain.congr hsource) hapart hentry hprogress.dir (hprogress.free name List.mem_cons_self)
      rw [copyEntries, Eff.bind_of_ok hrun]
      exact ih d₁ hnodup hcalls₁ (fun name' h' => hentries name' (List.mem_cons_of_mem name h'))
        (hprogress.step hname hapart hcopied hsame)

/-! ## Directories -/

section

variable {readOrder : Path → List String → List String}

theorem copyDir_copies (horder : ∀ p l, (readOrder p l).Perm l) (fuel : Nat) :
    ∀ src dst d, Copyable fuel d src dst →
      Copies (copyDirRecursiveHardlinkOrCopySync readOrder fuel src dst) src dst d := by
  induction fuel with
  | zero =>
      intro src dst d h
      have hlt := h.source.shallow [] (by simp [h.dir])
      cases hlt
  | succ fuel ih =>
      intro src dst d h
      obtain ⟨t₁, hmake, hdst, hothers⟩ := createDirAll_quiet h.calls h.place
      -- the source and the names in the destination are as before
      have hsource : ∀ rel, t₁.item (rel ++ src) = d.tree.item (rel ++ src) := by
        intro rel
        refine hothers _ fun heq => h.apart.left ?_
        rw [← heq]
        exact List.suffix_append rel src
      have hempty : ∀ name, t₁.item (name :: dst) = none := by
        intro name
        rw [hothers _ (List.cons_ne_self name dst)]
        exact h.empty name
      have hdir : t₁.item src = some .dir := (hsource []).trans h.dir
      have hmem : ∀ name, name ∈ readOrder src (t₁.names src) ↔ t₁.item (name :: src) ≠ none :=
        fun name => (horder src _).mem_iff.trans mem_names
      have hstart : Progress t₁ t₁ src dst (readOrder src (t₁.names src)) := {
        outside := fun q _ => rfl
        dir := hdst
        copied := by
          intro name hname rel
          have hnone : t₁.item (name :: src) = none := by
            by_contra hsome
            exact hname ((hmem name).mpr hsome)
          rw [item_append_eq_none (hempty name), item_append_eq_none hnone]
        free := fun name _ => hempty name }
      obtain ⟨d', hrun, hcalls, hdone⟩ := copyEntries_progress ih (h.source.congr hsource) h.apart
        (readOrder src (t₁.names src)) (withTree d t₁) ((horder src _).nodup_iff.mpr nodup_names)
        h.calls (fun name => (hmem name).mp) hstart
      refine ⟨d', ?_, hcalls, fun rel => ?_, fun q hq => ?_⟩
      · rw [copyDirRecursiveHardlinkOrCopySync, Eff.bind_of_ok hmake,
          Eff.bind_of_ok (readDir_quiet (d := withTree d t₁) h.calls hdir)]
        exact hrun
      · rw [hdone.copiedTo hdir rel, hsource rel]
      · rw [hdone.outside q hq]
        refine hothers q ?_
        rintro rfl
        exact hq (List.suffix_refl q)

/-- An empty directory is its own copy. -/
theorem copyDir_self (horder : ∀ p l, (readOrder p l).Perm l) {fuel : Nat} {d : Disk} {p : Path}
    (hcalls : d.faults = []) (hdir : d.tree.item p = some .dir)
    (hempty : ∀ name, d.tree.item (name :: p) = none) :
    copyDirRecursiveHardlinkOrCopySync readOrder (fuel + 1) p p d = (.ok (), d) := by
  have hnames : readOrder p (d.tree.names p) = [] := by
    refine List.eq_nil_iff_forall_not_mem.mpr fun name hname => ?_
    exact mem_names.mp ((horder p _).mem_iff.mp hname) (hempty name)
  have hmake : createDirAll p d = (.ok (), d) := by
    rw [createDirAll, Eff.bind_of_ok (external_quiet hcalls), makeDirs_dir hdir]
  rw [copyDirRecursiveHardlinkOrCopySync, Eff.bind_of_ok hmake,
    Eff.bind_of_ok (readDir_quiet hcalls hdir), hnames]
  rfl

/-- The height of the tree is enough fuel, and an empty directory that is not in the source is apart
from it. -/
theorem copyable_of_outside {fuel : Nat} {d : Disk} {src dst : Path} (hcalls : d.faults = [])
    (hsrc : d.tree.item src = some .dir) (hplain : ∀ rel, d.tree.item (rel ++ src) ≠ some .other)
    (hdst : d.tree.item dst = some .dir) (hempty : ∀ name, d.tree.item (name :: dst) = none)
    (houtside : ¬ src <:+ dst) (hfuel : d.tree.height < fuel) : Copyable fuel d src dst where
  calls := hcalls
  dir := hsrc
  source := {
    plain := hplain
    shallow := by
      intro rel hrel
      have hle := length_le_height hrel
      rw [List.length_append] at hle
      omega }
  place := .dir hdst
  empty := hempty
  apart := {
    left := houtside
    right := by
      -- nothing stands below the destination, so not the source
      rintro ⟨rel, rfl⟩
      rcases List.eq_nil_or_concat rel with rfl | ⟨rel, name, rfl⟩
      · exact houtside (List.suffix_refl dst)
      · rw [List.concat_eq_append, ← List.append_cons, item_append_eq_none (hempty name)] at hsrc
        cases hsrc }

/-- The copy of a tree of directories and files into an empty directory ends, whatever hard links
fail.  Then the destination has the same directories and files as the source, at every depth and
with the same bytes, and nothing outside of it has changed. -/
theorem baseline_copy_complete (horder : ∀ p l, (readOrder p l).Perm l) {d : Disk}
    {src dst : Path} (hcalls : d.faults = []) (hsrc : d.tree.item src = some .dir)
    (hplain : ∀ rel, d.tree.item (rel ++ src) ≠ some .other)
    (hdst : d.tree.item dst = some .dir) (hempty : ∀ name, d.tree.item (name :: dst) = none)
    (houtside : src <:+ dst → src = dst) {fuel : Nat} (hfuel : d.tree.height < fuel) :
    ∃ d', copyDirRecursiveHardlinkOrCopySync readOrder fuel src dst d = (.ok (), d') ∧
      (∀ rel, d'.tree.item (rel ++ dst) = d.tree.item (rel ++ src)) ∧
      ∀ q, ¬ dst <:+ q → d'.tree.item q = d.tree.item q := by
  by_cases heq : src = dst
  · subst heq
    obtain ⟨fuel, rfl⟩ := Nat.exists_eq_succ_of_ne_zero (Nat.ne_zero_of_lt hfuel)
    exact ⟨d, copyDir_self horder hcalls hsrc hempty, fun _ => rfl, fun _ _ => rfl⟩
  · have hcopyable := copyable_of_outside hcalls hsrc hplain hdst hempty
      (fun hsuffix => heq (houtside hsuffix)) hfuel
    obtain ⟨d', hrun, _, hcopied, hsame⟩ := copyDir_copies horder fuel src dst d hcopyable
    exact ⟨d', hrun, hcopied, hsame⟩

end

/-- A directory with a file and a subdirectory, in which there is a file too, and an empty one. -/
def twoLevels : Option (FileTree String Bytes) := do
  let t ← FileTree.root.mkdir ["base"]
  let t ← t.create [1] ["a", "base"]
  let t ← t.mkdir ["sub", "base"]
  let t ← t.create [2] ["b", "sub", "base"]
  t.mkdir ["temp"]

/-- The first hard link fails, and the file further down is in the copy. -/
theorem two_levels_copied :
    ∃ d d' : Disk, d.links = [some "Invalid cross-device link (os error 18)"] ∧
      d.tree.item ["b", "sub", "base"] = some (.file [2]) ∧
      copyDirRecursiveHardlinkOrCopySync (fun _ l => l.reverse) 4 ["base"] ["temp"] d =
        (.ok (), d') ∧
      d'.tree.item ["b", "sub", "temp"] = some (.file [2]) := by
  have htest : twoLevels.any (fun t => decide (t.item ["base"] = some .dir ∧
      t.item ["temp"] = some .dir ∧ t.names ["temp"] = [] ∧ t.height < 4 ∧
      t.item ["b", "sub", "base"] = some (.file [2])) &&
      t.nodes.toList.all fun q => decide (q.2 ≠ .other)) = true := by
    decide +kernel
  obtain ⟨t, _, htest⟩ := (Option.any_eq_true _ _).mp htest
  obtain ⟨hfacts, hplain⟩ := Bool.and_eq_true_iff.mp htest
  obtain ⟨hbase, htemp, hnames, hheight, hfile⟩ := of_decide_eq_true hfacts
  have hempty : ∀ name, t.item (name :: ["temp"]) = none := by
    intro name
    by_contra hsome
    have hmem := mem_names.mpr hsome
    rw [hnames] at hmem
    cases hmem
  let d : Disk := ⟨t, [some "Invalid cross-device link (os error 18)"], []⟩
  obtain ⟨d', hrun, hcopied, _⟩ := baseline_copy_complete (fun _ l => l.reverse_perm) (d := d)
    rfl hbase (fun rel => item_ne_other_of_all hplain _) htemp hempty
    (fun hsuffix => absurd hsuffix (by decide)) hheight
  exact ⟨d, d', rfl, hfile, hrun, (hcopied ["b", "sub"]).trans hfile⟩

/-! ## The destination of a merge -/

/-- Inside of itself no directory can have a copy, whatever the code does. -/
theorem outside_of_copiedTo {t : FileTree String Bytes} {src dst : Path}
    (hsrc : t.item src = some .dir) (hcopied : CopiedTo t t src dst) (hinside : src <:+ dst) :
    src = dst := by
  obtain ⟨k, rfl⟩ := hinside
  by_contra hne
  refine not_copiedTo_below (fun hk => hne ?_) (by simp [hsrc]) hcopied
  rw [hk, List.nil_append]

/-- No checkpoint directory is above a directory that a merge works in. -/
theorem checkpoint_not_above_temp (cwd : Path) (dirName tempId : String) :
    ¬ dirName :: checkpointBase cwd <:+ tempPath (tempBase cwd) tempId := by
  rintro ⟨rel, hrel⟩
  have hlen := congrArg List.length hrel
  obtain ⟨name, rfl⟩ : ∃ name, rel = [name] := by
    refine List.length_eq_one_iff.mp ?_
    simp only [checkpointBase, tempPath, tempBase, List.length_append, List.length_cons] at hlen
    omega
  simp [checkpointBase, tempPath, tempBase] at hrel

/-- So a merge can copy its baseline to the directory that it has made. -/
theorem merge_copyable {fuel : Nat} {d : Disk} {cwd : Path} {dirName tempId : String}
    (hcalls : d.faults = []) (hsrc : d.tree.item (dirName :: checkpointBase cwd) = some .dir)
    (hplain : ∀ rel, d.tree.item (rel ++ dirName :: checkpointBase cwd) ≠ some .other)
    (hdst : d.tree.item (tempPath (tempBase cwd) tempId) = some .dir)
    (hempty : ∀ name, d.tree.item (name :: tempPath (tempBase cwd) tempId) = none)
    (hfuel : d.tree.height < fuel) :
    Copyable fuel d (dirName :: checkpointBase cwd) (tempPath (tempBase cwd) tempId) :=
  copyable_of_outside hcalls hsrc hplain hdst hempty (checkpoint_not_above_temp cwd dirName tempId)
    hfuel

/-! ## The step that loading takes -/

/-- What opening a directory finds depends on the directories and files in it: the tree and the
sequence manifest of a directory of the world. -/
def Shows (openDir : (Path → Option (FileItem Bytes)) → Option Tree × Option Bytes)
    (t : FileTree String Bytes) (p : Path) (dir : Dir) : Prop :=
  openDir (fun rel => t.item (rel ++ p)) = (dir.tree, dir.manifest)

theorem Shows.of_copiedTo {openDir : (Path → Option (FileItem Bytes)) → Option Tree × Option Bytes}
    {t t' : FileTree String Bytes} {src dst : Path} {dir dir' : Dir}
    (hshows : Shows openDir t src dir) (hcopied : CopiedTo t t' src dst)
    (htree : dir'.tree = dir.tree) (hmanifest : dir'.manifest = dir.manifest) :
    Shows openDir t' dst dir' := by
  rw [Shows, funext hcopied, htree, hmanifest]
  exact hshows

theorem loadBaselineCheckpointToTree_ok {w w' : World} {checkpointPath tempPath : String}
    {dir : Dir} {tree : Tree} (hdir : w.dirs[checkpointPath]? = some dir)
    (hload : loadBaselineCheckpointToTree checkpointPath tempPath w = (.ok tree, w')) :
    tree = dir.tree.getD ∅ ∧
      ∃ dir', w'.dirs[tempPath]? = some dir' ∧ dir'.tree = dir.tree ∧
        dir'.manifest = dir.manifest := by
  obtain ⟨_, _, htask, hload⟩ := Eff.bind_eq_ok_iff.mp hload
  obtain ⟨fs₀, rfl⟩ := Sys.external_ok htask
  obtain ⟨_, _, hcall, hload⟩ := Eff.bind_eq_ok_iff.mp hload
  obtain ⟨fs, rfl⟩ := Sys.external_ok hcall
  rw [Eff.bind_of_ok (Eff.gets_run _ _)] at hload
  simp only [World.withFaults, hdir] at hload
  obtain ⟨_, _, hupdate, hload⟩ := Eff.bind_eq_ok_iff.mp hload
  obtain ⟨-, rfl⟩ := Eff.ok_inj hupdate
  obtain ⟨_, _, hopen, hload⟩ := Eff.bind_eq_ok_iff.mp hload
  obtain ⟨fs', rfl⟩ := Sys.external_ok hopen
  obtain ⟨rfl, rfl⟩ := Eff.ok_inj hload
  exact ⟨rfl, _, Std.ExtTreeMap.getElem?_insert_self, rfl, rfl⟩

/-- `loadBaselineCheckpointToTree` takes the copy as one step.  A directory that shows the baseline
is copied to one that shows what that step leaves. -/
theorem load_shows_copy {readOrder : Path → List String → List String}
    (horder : ∀ p l, (readOrder p l).Perm l)
    {openDir : (Path → Option (FileItem Bytes)) → Option Tree × Option Bytes} {fuel : Nat}
    {d : Disk} {src dst : Path} (h : Copyable fuel d src dst) {w w' : World}
    {checkpointPath tempPath : String} {dir : Dir} {tree : Tree}
    (hdir : w.dirs[checkpointPath]? = some dir) (hshows : Shows openDir d.tree src dir)
    (hload : loadBaselineCheckpointToTree checkpointPath tempPath w = (.ok tree, w')) :
    ∃ d' dir', copyDirRecursiveHardlinkOrCopySync readOrder fuel src dst d = (.ok (), d') ∧
      w'.dirs[tempPath]? = some dir' ∧ Shows openDir d'.tree dst dir' ∧
      tree = dir'.tree.getD ∅ := by
  obtain ⟨d', hrun, _, hcopied, _⟩ := copyDir_copies horder fuel src dst d h
  obtain ⟨htree, dir', hdir', hsame, hmanifest⟩ := loadBaselineCheckpointToTree_ok hdir hload
  refine ⟨d', dir', hrun, hdir', hshows.of_copiedTo hcopied hsame hmanifest, ?_⟩
  rw [htree, hsame]

end CheckpointMergeBackend

end OpenraftSurrealkv
