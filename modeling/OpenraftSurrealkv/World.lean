import OpenraftSurrealkv.Lib.Effect
import OpenraftSurrealkv.Types

/-!
# What lies outside the process

The store works on a SurrealKV tree, on files and directories, on the clock and
on a few sources of fresh names.  `World` holds all of them, so an operation on
it is an `Eff World`.

An external call can fail.  `World.faults` lists the outcomes of the calls to
come, in the order in which they are made: `none` succeeds, `some text` fails
with the text, and after the list every call succeeds.  A statement about every
pattern of failures is a statement about every list.  A transaction that fails, at
its begin, at a write or at its commit, leaves the tree as it was.  A write of a
file that fails leaves the file as it was or cut off, as `World.cuts` says, and
any other file operation that fails leaves the files as they were.

Two things go beyond what the content of a world can say, and the world records
that they happened: a failing write has cut off a file that was there
(`World.cutOff`), and a checkpoint was made in a directory that had been used for
one (`World.reused`).

Compression and archiving are third-party code.  `Archiver` takes them as
functions, with the law that reading undoes writing.
-/

namespace OpenraftSurrealkv

open Postcard

/-- The content of a SurrealKV tree. -/
abbrev Tree := OrdMap Bytes Bytes

/-- A directory that can hold a SurrealKV database and a sequence manifest. -/
structure Dir where
  tree : Option Tree
  manifest : Option Bytes
  /-- The modification time, in whole seconds.  The file system has finer times, so directories tie
  here that it tells apart. -/
  modified : UInt64

/-- Everything outside the process. -/
structure World where
  tree : Tree
  files : OrdMap String Bytes
  dirs : OrdMap String Dir
  /-- The clock readings to come, in seconds. -/
  clock : List UInt64
  /-- The sequence numbers that SurrealKV gives to the checkpoints to come. -/
  sequence : List UInt64
  uuids : List String
  /-- The outcomes of the external calls to come. -/
  faults : List (Option String)
  /-- What the failing writes to come leave: the file as it was, or that many bytes of the new
  content.  After the list, the file as it was. -/
  cuts : List (Option Nat)
  /-- A failing write has cut off a file that was there before. -/
  cutOff : Bool
  /-- A checkpoint was made in a directory that had been used for one.  SurrealKV links the files of
  a tree into its checkpoints.  Where a link is there already it copies the file over it, and so
  empties or replaces a file that the tree or another checkpoint has too.  From then on the trees
  say what was written, and no longer what a reopening finds on the disk. -/
  reused : Bool

/-- A failure of a zstd decoder, when it is made or when it reads, with its text. -/
inductive ZstdError where
  | create (text : String)
  | read (text : String)
deriving DecidableEq, Repr

def ZstdError.text : ZstdError → String
  | .create text => text
  | .read text => text

/-- zstd and tar. -/
structure Archiver where
  zstdEncode : Nat → Bytes → Bytes
  zstdDecode : Bytes → Except ZstdError Bytes
  tarPack : Dir → Bytes
  tarUnpack : Bytes → Except String Dir
  /-- The bytes of the files of a directory, summed up. -/
  dirSize : Dir → UInt64
  zstdDecode_zstdEncode : ∀ level b, zstdDecode (zstdEncode level b) = .ok b
  tarUnpack_tarPack : ∀ d, tarUnpack (tarPack d) = .ok d

/-- An operation on the world. -/
abbrev Sys (α : Type) := Eff World RaftError α

namespace World

/-- The same world with other call outcomes to come. -/
def withFaults (w : World) (fs : List (Option String)) : World := { w with faults := fs }

@[simp] theorem withFaults_tree (w : World) (fs) : (w.withFaults fs).tree = w.tree := rfl
@[simp] theorem withFaults_files (w : World) (fs) : (w.withFaults fs).files = w.files := rfl
@[simp] theorem withFaults_faults (w : World) (fs) : (w.withFaults fs).faults = fs := rfl
@[simp] theorem withFaults_withFaults (w : World) (fs gs) :
    (w.withFaults fs).withFaults gs = w.withFaults gs := rfl
@[simp] theorem withFaults_self (w : World) : w.withFaults w.faults = w := rfl

/-- The same world with other tree content. -/
def withTree (w : World) (t : Tree) : World := { w with tree := t }

@[simp] theorem withTree_tree (w : World) (t) : (w.withTree t).tree = t := rfl
@[simp] theorem withTree_files (w : World) (t) : (w.withTree t).files = w.files := rfl
@[simp] theorem withTree_faults (w : World) (t) : (w.withTree t).faults = w.faults := rfl

end World

namespace Sys

/-! ## Calls and readings -/

/-- One external call, whose failure is reported through `wrap`. -/
def external (wrap : String → RaftError) : Sys Unit := fun w =>
  match w.faults with
  | [] => (.ok (), w)
  | none :: fs => (.ok (), w.withFaults fs)
  | some text :: fs => (.error (wrap text), w.withFaults fs)

/-- `now_secs`: a clock reading, `0` when the clock is before the epoch. -/
def nowSecs : Sys UInt64 := fun w => (.ok (w.clock.headD 0), { w with clock := w.clock.tail })

/-- `Uuid::new_v4`. -/
def newUuid : Sys String := fun w => (.ok (w.uuids.headD ""), { w with uuids := w.uuids.tail })

theorem external_cases (wrap : String → RaftError) (w : World) :
    ∃ fs, external wrap w = (.ok (), w.withFaults fs) ∨
      ∃ e, external wrap w = (.error e, w.withFaults fs) := by
  rcases h : w.faults with _ | ⟨o, fs⟩
  · refine ⟨w.faults, Or.inl ?_⟩
    rw [World.withFaults_self, external, h]
  · cases o with
    | none =>
        refine ⟨fs, Or.inl ?_⟩
        rw [external, h]
    | some text =>
        refine ⟨fs, Or.inr ⟨wrap text, ?_⟩⟩
        rw [external, h]

theorem external_ok {wrap : String → RaftError} {w w' : World} {u : Unit}
    (h : external wrap w = (.ok u, w')) : ∃ fs, w' = w.withFaults fs := by
  obtain ⟨fs, hok | ⟨e, herr⟩⟩ := external_cases wrap w
  · rw [hok] at h
    exact ⟨fs, (Prod.mk.inj h).2.symm⟩
  · rw [herr] at h
    cases h

/-- With no failure to come, a call does nothing but succeed. -/
theorem external_quiet {w : World} (wrap : String → RaftError) (h : w.faults = []) :
    external wrap w = (.ok (), w) := by
  rw [external, h]

/-! ## The tree -/

/-- Read a key in a read transaction. -/
def getKey (wrap : String → RaftError) (key : Bytes) : Sys (Option Bytes) := do
  external wrap
  Eff.gets fun w => w.tree[key]?

/-- One write of a transaction.  SurrealKV refuses the empty key. -/
def setKey (wrap : String → RaftError) (write : Update Bytes Bytes) : Sys Unit := do
  external wrap
  if write.key = [] then Eff.fail (wrap "Empty key") else pure ()

/-- The writes of a transaction, each of which can fail. -/
def setAll (wrap : String → RaftError) : List (Update Bytes Bytes) → Sys Unit
  | [] => pure ()
  | write :: writes => do
      setKey wrap write
      setAll wrap writes

/-- A write transaction: begin, the writes, commit.  The writes land at the commit. -/
def transaction (onBegin onSet onCommit : String → RaftError)
    (writes : List (Update Bytes Bytes)) : Sys Unit := do
  external onBegin
  setAll onSet writes
  external onCommit
  Eff.modify fun w => w.withTree (replay w.tree writes)

/-- A write transaction whose errors are SurrealKV errors. -/
def commitWrites (writes : List (Update Bytes Bytes)) : Sys Unit :=
  transaction RaftError.ofSurrealkv RaftError.ofSurrealkv RaftError.ofSurrealkv writes

theorem setKey_of_ne {write : Update Bytes Bytes} (h : write.key ≠ []) (wrap : String → RaftError)
    (w : World) : setKey wrap write w = external wrap w := by
  rw [setKey, if_neg h, Eff.bind_run]
  rcases external wrap w with ⟨_ | _, _⟩ <;> rfl

/-- A write under the empty key is refused, whatever the calls do. -/
theorem setKey_empty_key {write : Update Bytes Bytes} (h : write.key = [])
    (wrap : String → RaftError) (w : World) :
    ∃ e fs, setKey wrap write w = (.error e, w.withFaults fs) := by
  obtain ⟨fs, hok | ⟨e, herr⟩⟩ := external_cases wrap w
  · refine ⟨wrap "Empty key", fs, ?_⟩
    rw [setKey, if_pos h, Eff.bind_of_ok hok]
    rfl
  · exact ⟨e, fs, Eff.bind_of_error herr⟩

theorem setKey_cases (wrap : String → RaftError) (write : Update Bytes Bytes) (w : World) :
    ∃ fs, setKey wrap write w = (.ok (), w.withFaults fs) ∨
      ∃ e, setKey wrap write w = (.error e, w.withFaults fs) := by
  by_cases hkey : write.key = []
  · obtain ⟨e, fs, herr⟩ := setKey_empty_key hkey wrap w
    exact ⟨fs, Or.inr ⟨e, herr⟩⟩
  · rw [setKey_of_ne hkey]
    exact external_cases wrap w

theorem setAll_cases (wrap : String → RaftError) :
    ∀ (writes : List (Update Bytes Bytes)) (w : World),
      ∃ fs, setAll wrap writes w = (.ok (), w.withFaults fs) ∨
        ∃ e, setAll wrap writes w = (.error e, w.withFaults fs)
  | [], w => ⟨w.faults, Or.inl rfl⟩
  | write :: writes, w => by
      obtain ⟨fs, hok | ⟨e, herr⟩⟩ := setKey_cases wrap write w
      · rw [setAll, Eff.bind_of_ok hok]
        exact setAll_cases wrap writes (w.withFaults fs)
      · refine ⟨fs, Or.inr ⟨e, ?_⟩⟩
        rw [setAll, Eff.bind_of_error herr]

/-- A transaction lands all its writes or none. -/
theorem transaction_cases (onBegin onSet onCommit : String → RaftError)
    (writes : List (Update Bytes Bytes)) (w : World) :
    ∃ fs, transaction onBegin onSet onCommit writes w =
        (.ok (), (w.withTree (replay w.tree writes)).withFaults fs) ∨
      ∃ e, transaction onBegin onSet onCommit writes w = (.error e, w.withFaults fs) := by
  obtain ⟨fs, hb | ⟨e, hb⟩⟩ := external_cases onBegin w
  · obtain ⟨gs, hs | ⟨e, hs⟩⟩ := setAll_cases onSet writes (w.withFaults fs)
    · obtain ⟨hs', hc | ⟨e, hc⟩⟩ := external_cases onCommit (w.withFaults gs)
      · refine ⟨hs', Or.inl ?_⟩
        rw [transaction, Eff.bind_of_ok hb, Eff.bind_of_ok hs, World.withFaults_withFaults,
          Eff.bind_of_ok hc]
        rfl
      · refine ⟨hs', Or.inr ⟨e, ?_⟩⟩
        rw [transaction, Eff.bind_of_ok hb, Eff.bind_of_ok hs, World.withFaults_withFaults,
          Eff.bind_of_error hc, World.withFaults_withFaults]
    · refine ⟨gs, Or.inr ⟨e, ?_⟩⟩
      rw [transaction, Eff.bind_of_ok hb, Eff.bind_of_error hs, World.withFaults_withFaults]
  · refine ⟨fs, Or.inr ⟨e, ?_⟩⟩
    rw [transaction, Eff.bind_of_error hb]

theorem commitWrites_cases (writes : List (Update Bytes Bytes)) (w : World) :
    ∃ fs, commitWrites writes w = (.ok (), (w.withTree (replay w.tree writes)).withFaults fs) ∨
      ∃ e, commitWrites writes w = (.error e, w.withFaults fs) :=
  transaction_cases _ _ _ writes w

/-- No write is under the empty key. -/
def Keyed (writes : List (Update Bytes Bytes)) : Prop := ∀ write ∈ writes, write.key ≠ []

theorem keyed_put {key : Bytes} (h : key ≠ []) (value : Bytes) : Keyed [.put key value] :=
  List.forall_mem_singleton.mpr h

theorem keyed_cons {write : Update Bytes Bytes} {writes : List (Update Bytes Bytes)} :
    Keyed (write :: writes) ↔ write.key ≠ [] ∧ Keyed writes :=
  List.forall_mem_cons

theorem setAll_quiet {w : World} (wrap : String → RaftError) (h : w.faults = []) :
    ∀ {writes : List (Update Bytes Bytes)}, Keyed writes → setAll wrap writes w = (.ok (), w)
  | [], _ => rfl
  | _ :: _, hkeyed => by
      obtain ⟨hkey, hrest⟩ := keyed_cons.mp hkeyed
      rw [setAll, Eff.bind_of_ok ((setKey_of_ne hkey wrap w).trans (external_quiet wrap h))]
      exact setAll_quiet wrap h hrest

theorem commitWrites_quiet {w : World} (h : w.faults = []) {writes : List (Update Bytes Bytes)}
    (hkeyed : Keyed writes) :
    commitWrites writes w = (.ok (), w.withTree (replay w.tree writes)) := by
  rw [commitWrites, transaction, Eff.bind_of_ok (external_quiet _ h),
    Eff.bind_of_ok (setAll_quiet _ h hkeyed), Eff.bind_of_ok (external_quiet _ h)]
  rfl

/-- A transaction with a write under the empty key does nothing. -/
theorem commitWrites_empty_key {write : Update Bytes Bytes} (h : write.key = []) (w : World) :
    ∃ e fs, commitWrites [write] w = (.error e, w.withFaults fs) := by
  rw [commitWrites, transaction]
  obtain ⟨fs, hb | ⟨e, hb⟩⟩ := external_cases RaftError.ofSurrealkv w
  · obtain ⟨e, gs, herr⟩ := setKey_empty_key h RaftError.ofSurrealkv (w.withFaults fs)
    rw [Eff.bind_of_ok hb]
    exact ⟨e, gs, Eff.bind_of_error (Eff.bind_of_error herr)⟩
  · exact ⟨e, fs, Eff.bind_of_error hb⟩

/-! ## Files and directories -/

/-- `PathBuf::join`. -/
def joinPath (base name : String) : String := base ++ "/" ++ name

/-- What a failing write leaves of a file.  Opening the file for the write empties it. -/
def cutFile (path : String) (bytes : Bytes) : Sys Unit :=
  Eff.modify fun w =>
    match w.cuts with
    | [] => w
    | none :: cuts => { w with cuts }
    | some written :: cuts =>
        { w with
          files := w.files.insert path (bytes.take written)
          cuts
          cutOff := w.cutOff || w.files.contains path }

/-- `fs::write`. -/
def writeFile (wrap : String → RaftError) (path : String) (bytes : Bytes) : Sys Unit := do
  match ← Eff.attempt (external wrap) with
  | .ok _ => Eff.modify fun w => { w with files := w.files.insert path bytes }
  | .error e => do
      cutFile path bytes
      Eff.fail e

/-- `fs::read`. -/
def readFile (path : String) : Sys Bytes := do
  external RaftError.io
  let file ← Eff.gets fun w => w.files[path]?
  match file with
  | some bytes => pure bytes
  | none => Eff.fail (.io "No such file or directory (os error 2)")

/-- Change a directory, which is made first if it is missing. -/
def updateDir (path : String) (f : Dir → Dir) : Sys Unit :=
  Eff.modify fun w =>
    { w with dirs := w.dirs.insert path (f (w.dirs[path]?.getD ⟨none, none, w.clock.headD 0⟩)) }

/-- What a failing write of a manifest leaves. -/
def cutManifest (path : String) (bytes : Bytes) : Sys Unit := do
  match ← Eff.gets World.cuts with
  | [] => pure ()
  | none :: cuts => Eff.modify fun w => { w with cuts }
  | some written :: cuts => do
      Eff.modify fun w => { w with cuts }
      updateDir path fun d => { d with manifest := some (bytes.take written) }

/-- `fs::create_dir_all`. -/
def createDirAll (wrap : String → RaftError) (path : String) : Sys Unit := do
  external wrap
  updateDir path id

/-- Whether a directory has been used for a checkpoint. -/
def hasCheckpoint (path : String) (w : World) : Bool := (w.dirs[path]?.bind Dir.tree).isSome

/-- `Tree::create_checkpoint` on a blocking thread: the tree's content in a directory, and a
sequence number.  A call that fails leaves links behind, so the directory is in use from the
start. -/
def createCheckpoint (path : String) : Sys UInt64 := do
  Eff.modify fun w => { w with reused := w.reused || hasCheckpoint path w }
  updateDir path fun d => { d with tree := some ∅ }
  external fun e => .snapshot ("Failed to create checkpoint: " ++ e)
  external fun e => .snapshot ("Checkpoint creation task panicked: " ++ e)
  let tree ← Eff.gets World.tree
  updateDir path fun d => { d with tree := some tree }
  fun w => (.ok (w.sequence.headD 0), { w with sequence := w.sequence.tail })

/-- Run an operation on another tree and come back to the own one. -/
def withTree {α : Type} (t : Tree) (x : Sys α) : Sys α := fun w =>
  ((x (w.withTree t)).1, (x (w.withTree t)).2.withTree w.tree)

/-! ## What the operations do to the world

Each operation moves the world along every preorder that allows its changes.
-/

section

variable {R : World → World → Prop}

/-- A relation that looks only at what was written, not at what is to come. -/
def Stored (R : World → World → Prop) : Prop :=
  ∀ w clock sequence uuids faults cuts, R w { w with clock, sequence, uuids, faults, cuts }

/-- An operation that only takes outcomes of calls. -/
theorem within_of_cases {x : Sys Unit} (h : Stored R)
    (hx : ∀ w, ∃ fs, x w = (.ok (), w.withFaults fs) ∨ ∃ e, x w = (.error e, w.withFaults fs)) :
    Eff.Within R x := by
  intro w
  obtain ⟨fs, hok | ⟨e, herr⟩⟩ := hx w
  · rw [hok]
    exact h w w.clock w.sequence w.uuids fs w.cuts
  · rw [herr]
    exact h w w.clock w.sequence w.uuids fs w.cuts

theorem within_external (h : Stored R) (wrap : String → RaftError) :
    Eff.Within R (external wrap) :=
  within_of_cases h (external_cases wrap)

theorem within_nowSecs (h : Stored R) : Eff.Within R nowSecs :=
  fun w => h w w.clock.tail w.sequence w.uuids w.faults w.cuts

theorem within_newUuid (h : Stored R) : Eff.Within R newUuid :=
  fun w => h w w.clock w.sequence w.uuids.tail w.faults w.cuts

theorem within_setAll (h : Stored R) (wrap : String → RaftError)
    (writes : List (Update Bytes Bytes)) : Eff.Within R (setAll wrap writes) :=
  within_of_cases h (setAll_cases wrap writes)

variable [IsPreorder World R]

theorem within_readFile (h : Stored R) (path : String) : Eff.Within R (readFile path) := by
  refine .bind (within_external h _) fun _ => .bind (.gets _) fun file => ?_
  cases file with
  | none => exact .fail _
  | some bytes => exact .pure _

theorem within_transaction (h : Stored R) (onBegin onSet onCommit : String → RaftError)
    {writes : List (Update Bytes Bytes)}
    (hwrites : ∀ w, R w (w.withTree (replay w.tree writes))) :
    Eff.Within R (transaction onBegin onSet onCommit writes) :=
  .bind (within_external h _) fun _ => .bind (within_setAll h _ _) fun _ =>
    .bind (within_external h _) fun _ => .modify hwrites

/-- A relation that looks only at the tree and the files. -/
structure Frame (R : World → World → Prop) : Prop where
  stored : Stored R
  dirs : ∀ w dirs, R w { w with dirs }
  reused : ∀ w again, R w { w with reused := w.reused || again }

omit [IsPreorder World R] in
theorem within_updateDir (h : Frame R) (path : String) (f : Dir → Dir) :
    Eff.Within R (updateDir path f) :=
  .modify fun w => h.dirs w _

theorem within_createDirAll (h : Frame R) (wrap : String → RaftError) (path : String) :
    Eff.Within R (createDirAll wrap path) :=
  .bind (within_external h.stored wrap) fun _ => within_updateDir h path id

theorem within_createCheckpoint (h : Frame R) (path : String) :
    Eff.Within R (createCheckpoint path) :=
  .bind (.modify fun w => h.reused w _) fun _ => .bind (within_updateDir h path _) fun _ =>
    .bind (within_external h.stored _) fun _ => .bind (within_external h.stored _) fun _ =>
      .bind (.gets _) fun _ => .bind (within_updateDir h path _) fun _ w =>
        h.stored w w.clock w.sequence.tail w.uuids w.faults w.cuts

theorem within_cutManifest (h : Frame R) (path : String) (bytes : Bytes) :
    Eff.Within R (cutManifest path bytes) := by
  have hcuts : ∀ cuts, Eff.Within R (Eff.modify fun w => { w with cuts } : Sys Unit) := fun cuts =>
    .modify fun w => h.stored w w.clock w.sequence w.uuids w.faults cuts
  refine .bind (.gets _) fun cuts => ?_
  match cuts with
  | [] => exact .pure _
  | none :: cuts => exact hcuts cuts
  | some written :: cuts => exact .bind (hcuts cuts) fun _ => within_updateDir h path _

/-- A relation that looks only at the files. -/
structure OfFiles (R : World → World → Prop) : Prop extends Frame R where
  tree : ∀ w t, R w (w.withTree t)

theorem OfFiles.transaction (h : OfFiles R) (onBegin onSet onCommit : String → RaftError)
    (writes : List (Update Bytes Bytes)) :
    Eff.Within R (transaction onBegin onSet onCommit writes) :=
  within_transaction h.stored _ _ _ fun w => h.tree w _

theorem OfFiles.withTree {α : Type} {x : Sys α} (h : OfFiles R) (t : Tree)
    (hx : Eff.Within R x) : Eff.Within R (withTree t x) := fun w =>
  trans_of R (h.tree w t) (trans_of R (hx (w.withTree t)) (h.tree _ w.tree))

/-- A relation that looks only at the tree. -/
structure OfTree (R : World → World → Prop) : Prop extends Frame R where
  files : ∀ w files, R w { w with files }
  cutOff : ∀ w again, R w { w with cutOff := w.cutOff || again }

theorem OfTree.cutFile (h : OfTree R) (path : String) (bytes : Bytes) :
    Eff.Within R (cutFile path bytes) := by
  have hcuts : ∀ (w : World) cuts, R w { w with cuts } := fun w cuts =>
    h.stored w w.clock w.sequence w.uuids w.faults cuts
  refine .modify fun w => ?_
  split
  next => exact refl_of R w
  next => exact hcuts w _
  next written cuts _ =>
    have hfiles := h.files { w with cuts } (w.files.insert path (bytes.take written))
    exact trans_of R (hcuts w cuts) (trans_of R hfiles (h.cutOff _ (w.files.contains path)))

theorem OfTree.writeFile (h : OfTree R) (wrap : String → RaftError) (path : String)
    (bytes : Bytes) : Eff.Within R (writeFile wrap path bytes) := by
  refine .bind (.attempt (within_external h.stored wrap)) fun outcome => ?_
  cases outcome with
  | ok _ => exact .modify fun w => h.files w _
  | error e => exact .bind (h.cutFile path bytes) fun _ => .fail _

end

/-! ## Files -/

/-- The files and whether one of them was cut off. -/
def fileState (w : World) : OrdMap String Bytes × Bool := (w.files, w.cutOff)

theorem ofFiles_files : OfFiles (Eff.Same World.files) where
  stored _ _ _ _ _ _ := rfl
  dirs _ _ := rfl
  reused _ _ := rfl
  tree _ _ := rfl

theorem ofFiles_fileState : OfFiles (Eff.Same fileState) where
  stored _ _ _ _ _ _ := rfl
  dirs _ _ := rfl
  reused _ _ := rfl
  tree _ _ := rfl

/-- Unless a file was cut off, a file that is there stays as it is or gets a content that `P`
allows. -/
structure FilesWithin (P : String → Bytes → Prop) (w w' : World) : Prop where
  kept : w'.cutOff = false → w.cutOff = false
  files : w'.cutOff = false → ∀ (p : String) (data : Bytes), w.files[p]? = some data →
    ∃ data', w'.files[p]? = some data' ∧ (data' = data ∨ P p data')

instance (P : String → Bytes → Prop) : IsPreorder World (FilesWithin P) where
  refl _ := ⟨id, fun _ _ data h => ⟨data, h, .inl rfl⟩⟩
  trans _ _ _ h₁ h₂ := by
    refine ⟨fun hcut => h₁.kept (h₂.kept hcut), fun hcut p data hdata => ?_⟩
    obtain ⟨data₂, hdata₂, hfirst⟩ := h₁.files (h₂.kept hcut) p data hdata
    obtain ⟨data₃, hdata₃, hsecond⟩ := h₂.files hcut p data₂ hdata₂
    refine ⟨data₃, hdata₃, ?_⟩
    rcases hsecond with rfl | hsecond
    · exact hfirst
    · exact .inr hsecond

theorem filesWithin_of_fileState (P : String → Bytes → Prop) {w w' : World}
    (h : fileState w' = fileState w) : FilesWithin P w w' := by
  obtain ⟨hfiles, hcut⟩ := Prod.mk.inj h
  refine ⟨fun hkept => hcut ▸ hkept, fun _ p data hdata => ⟨data, ?_, .inl rfl⟩⟩
  rw [hfiles, hdata]

theorem ofFiles_filesWithin (P : String → Bytes → Prop) : OfFiles (FilesWithin P) where
  stored _ _ _ _ _ _ := filesWithin_of_fileState P rfl
  dirs _ _ := filesWithin_of_fileState P rfl
  reused _ _ := filesWithin_of_fileState P rfl
  tree _ _ := filesWithin_of_fileState P rfl

/-- A write leaves the other files alone. -/
theorem get_insert_file {P : String → Bytes → Prop} {files : OrdMap String Bytes} {path : String}
    {bytes : Bytes} (h : P path bytes) {p : String} {data : Bytes} (hdata : files[p]? = some data) :
    ∃ data', (files.insert path bytes)[p]? = some data' ∧ (data' = data ∨ P p data') := by
  rw [OrdMap.get_insert]
  by_cases hp : path = p
  · subst hp
    exact ⟨bytes, if_pos rfl, .inr h⟩
  · exact ⟨data, by rw [if_neg hp, hdata], .inl rfl⟩

theorem filesWithin_cutFile {P : String → Bytes → Prop} (path : String) (bytes : Bytes) :
    Eff.Within (FilesWithin P) (cutFile path bytes) := by
  refine .modify fun w => ?_
  split
  next => exact refl_of _ w
  next => exact filesWithin_of_fileState P rfl
  next written cuts _ =>
    refine ⟨fun hcut => (Bool.or_eq_false_iff.mp hcut).1, fun hcut p data hdata => ?_⟩
    refine ⟨data, ?_, .inl rfl⟩
    -- the file was not there before, or it would count as cut off
    have hne : path ≠ p := by
      rintro rfl
      have hcontains := (Bool.or_eq_false_iff.mp hcut).2
      rw [Std.ExtTreeMap.contains_eq_isSome_getElem?, hdata] at hcontains
      cases hcontains
    show (w.files.insert path (bytes.take written))[p]? = some data
    rw [OrdMap.get_insert, if_neg hne, hdata]

theorem filesWithin_writeFile {P : String → Bytes → Prop} (wrap : String → RaftError)
    {path : String} {bytes : Bytes} (h : P path bytes) :
    Eff.Within (FilesWithin P) (writeFile wrap path bytes) := by
  refine .bind (.attempt (within_external (ofFiles_filesWithin P).stored wrap)) fun outcome => ?_
  cases outcome with
  | ok _ => exact .modify fun w => ⟨id, fun _ p data hdata => get_insert_file h hdata⟩
  | error e => exact .bind (filesWithin_cutFile path bytes) fun _ => .fail _

/-! ## What happened to the world -/

/-- Nothing happened that the content of the world does not show. -/
def Intact (w : World) : Prop := w.cutOff = false ∧ w.reused = false

/-- What happened to a world has happened to a later one. -/
def Later (w w' : World) : Prop := Intact w' → Intact w

instance : IsPreorder World Later where
  refl _ h := h
  trans _ _ _ h₁ h₂ h := h₁ (h₂ h)

theorem ofFiles_later : OfFiles Later where
  stored _ _ _ _ _ _ := id
  dirs _ _ := id
  reused _ _ := fun h => ⟨h.1, (Bool.or_eq_false_iff.mp h.2).1⟩
  tree _ _ := id

theorem ofTree_later : OfTree Later where
  toFrame := ofFiles_later.toFrame
  files _ _ := id
  cutOff _ _ := fun h => ⟨(Bool.or_eq_false_iff.mp h.1).1, h.2⟩

theorem readFile_ok {path : String} {w w' : World} {bytes : Bytes}
    (h : readFile path w = (.ok bytes, w')) :
    w.files[path]? = some bytes ∧ ∃ fs, w' = w.withFaults fs := by
  obtain ⟨_, w₁, hext, h₁⟩ := Eff.bind_eq_ok_iff.mp h
  obtain ⟨fs, rfl⟩ := external_ok hext
  obtain ⟨file, w₂, hget, h₂⟩ := Eff.bind_eq_ok_iff.mp h₁
  rw [Eff.gets_run, Prod.mk.injEq, Except.ok.injEq] at hget
  obtain ⟨rfl, rfl⟩ := hget
  cases hfile : w.files[path]? with
  | none =>
      rw [World.withFaults_files, hfile] at h₂
      cases h₂
  | some b =>
      rw [World.withFaults_files, hfile] at h₂
      cases h₂
      exact ⟨rfl, fs, rfl⟩

theorem writeFile_ok {wrap : String → RaftError} {path : String} {bytes : Bytes} {w w' : World}
    {u : Unit} (h : writeFile wrap path bytes w = (.ok u, w')) :
    w'.files = w.files.insert path bytes := by
  obtain ⟨outcome, w₁, hext, h₁⟩ := Eff.bind_eq_ok_iff.mp h
  cases outcome with
  | ok _ =>
      obtain ⟨fs, rfl⟩ := external_ok (Eff.attempt_eq_ok_iff.mp hext)
      cases h₁
      rfl
  | error e =>
      obtain ⟨_, _, _, hfail⟩ := Eff.bind_eq_ok_iff.mp h₁
      cases hfail

end Sys

end OpenraftSurrealkv
