import OpenraftSurrealkv.Lib.OrdMap

/-!
# File trees

A file tree says what stands at which path.  A path is the list of its names with
the last one first, so that the parent of `name :: p` is `p` and the paths below
`p` are the lists `rel ++ p`.

A file is a link to a numbered content.  Several paths can link to the same
content, and a write to it shows at all of them.  `FileTree.item` is what a reader
finds at a path, with the content in place of the link.

The parent of everything in a tree is a directory.  So nothing stands below a path
where nothing stands, or below a file (`item_below`), and additions keep both.
-/

/-- What stands at a path: a directory, a link to a content, or something else. -/
inductive FileNode where
  | dir
  | file (inode : Nat)
  | other
deriving DecidableEq, Repr

/-- What a reader finds at a path. -/
inductive FileItem (B : Type) where
  | dir
  | file (content : B)
  | other
deriving DecidableEq, Repr

/-- A finite tree of directories and files. -/
structure FileTree (N B : Type) [Ord N] [Std.TransOrd N] where
  nodes : OrdMap (List N) FileNode
  inodes : List B
  parent : ∀ (name : N) (p : List N) (node : FileNode),
    nodes[name :: p]? = some node → nodes[p]? = some FileNode.dir
  bound : ∀ (p : List N) (i : Nat), nodes[p]? = some (FileNode.file i) → i < inodes.length

namespace FileTree

variable {N B : Type}

/-! ## Paths -/

/-- Neither path is at or below the other. -/
structure Apart (p q : List N) : Prop where
  left : ¬ p <:+ q
  right : ¬ q <:+ p

theorem suffix_of_cons {name : N} {p q : List N} (h : name :: p <:+ name :: q) : p <:+ q := by
  rcases List.suffix_cons_iff.mp h with heq | hsuffix
  · cases heq
    exact List.suffix_refl p
  · exact (List.suffix_cons name p).trans hsuffix

theorem Apart.cons {p q : List N} (h : Apart p q) (name : N) : Apart (name :: p) (name :: q) :=
  ⟨fun hpq => h.left (suffix_of_cons hpq), fun hqp => h.right (suffix_of_cons hqp)⟩

/-- Nothing below the first path is below the second one. -/
theorem Apart.not_suffix {p q : List N} (h : Apart p q) (rel : List N) : ¬ q <:+ rel ++ p := by
  intro hsuffix
  rcases List.suffix_or_suffix_of_suffix hsuffix (List.suffix_append rel p) with hqp | hpq
  · exact h.right hqp
  · exact h.left hpq

theorem not_suffix_of_name_ne {name name' : N} (hne : name ≠ name') (rel p : List N) :
    ¬ name :: p <:+ rel ++ name' :: p := by
  rintro ⟨k, hk⟩
  exact hne (List.cons.inj (List.append_inj' hk rfl).2).1

section

variable [DecidableEq N]

/-- The name of a path in a directory. -/
def nameIn (p : List N) : List N → Option N
  | [] => none
  | name :: parent => if parent = p then some name else none

theorem nameIn_eq_some_iff {p q : List N} {name : N} :
    nameIn p q = some name ↔ q = name :: p := by
  cases q with
  | nil => simp [nameIn]
  | cons name' parent =>
      by_cases h : parent = p
      · simp [nameIn, h]
      · simp [nameIn, h]

end

variable [Ord N] [Std.TransOrd N]

/-! ## What stands at a path -/

def item (t : FileTree N B) (p : List N) : Option (FileItem B) :=
  match t.nodes[p]? with
  | none => none
  | some .dir => some .dir
  | some (.file i) => t.inodes[i]?.map .file
  | some .other => some .other

section

variable {t : FileTree N B} {p : List N}

theorem item_of_file {i : Nat} (h : t.nodes[p]? = some (.file i)) :
    ∃ b, t.inodes[i]? = some b ∧ t.item p = some (.file b) := by
  have hlt := t.bound p i h
  refine ⟨t.inodes[i], List.getElem?_eq_getElem hlt, ?_⟩
  simp only [item, h, List.getElem?_eq_getElem hlt, Option.map_some]

/-- What stands at a path and what is read there. -/
theorem item_cases (t : FileTree N B) (p : List N) :
    (t.nodes[p]? = none ∧ t.item p = none) ∨
      (t.nodes[p]? = some .dir ∧ t.item p = some .dir) ∨
      (∃ i b, t.nodes[p]? = some (.file i) ∧ t.inodes[i]? = some b ∧
        t.item p = some (.file b)) ∨
      (t.nodes[p]? = some .other ∧ t.item p = some .other) := by
  cases h : t.nodes[p]? with
  | none => simp [item, h]
  | some node =>
      cases node with
      | dir => simp [item, h]
      | other => simp [item, h]
      | file i =>
          obtain ⟨b, hb, hitem⟩ := item_of_file h
          exact Or.inr (Or.inr (Or.inl ⟨i, b, rfl, hb, hitem⟩))

theorem item_eq_none_iff : t.item p = none ↔ t.nodes[p]? = none := by
  rcases item_cases t p with ⟨hn, hi⟩ | ⟨hn, hi⟩ | ⟨i, b, hn, _, hi⟩ | ⟨hn, hi⟩ <;> simp [hn, hi]

theorem item_eq_dir_iff : t.item p = some .dir ↔ t.nodes[p]? = some .dir := by
  rcases item_cases t p with ⟨hn, hi⟩ | ⟨hn, hi⟩ | ⟨i, b, hn, _, hi⟩ | ⟨hn, hi⟩ <;> simp [hn, hi]

theorem item_eq_other_iff : t.item p = some .other ↔ t.nodes[p]? = some .other := by
  rcases item_cases t p with ⟨hn, hi⟩ | ⟨hn, hi⟩ | ⟨i, b, hn, _, hi⟩ | ⟨hn, hi⟩ <;> simp [hn, hi]

theorem exists_of_item_file {b : B} (h : t.item p = some (.file b)) :
    ∃ i, t.nodes[p]? = some (.file i) ∧ t.inodes[i]? = some b := by
  rcases item_cases t p with ⟨_, hi⟩ | ⟨_, hi⟩ | ⟨i, b', hn, hb, hi⟩ | ⟨_, hi⟩
  · simp [hi] at h
  · simp [hi] at h
  · rw [hi] at h
    cases h
    exact ⟨i, hn, hb⟩
  · simp [hi] at h

/-- Only a directory has something below it. -/
theorem item_below {rel : List N} (hrel : rel ≠ []) (h : t.item (rel ++ p) ≠ none) :
    t.item p = some .dir := by
  induction rel with
  | nil => exact absurd rfl hrel
  | cons name rel ih =>
      obtain ⟨node, hnode⟩ := Option.ne_none_iff_exists'.mp (item_eq_none_iff.not.mp h)
      have hparent : t.item (rel ++ p) = some .dir :=
        item_eq_dir_iff.mpr (t.parent name (rel ++ p) node hnode)
      cases rel with
      | nil => exact hparent
      | cons name' rel =>
          refine ih (List.cons_ne_nil _ _) ?_
          rw [hparent]
          exact Option.some_ne_none _

theorem item_below_eq_none (hdir : t.item p ≠ some .dir) {rel : List N} (hrel : rel ≠ []) :
    t.item (rel ++ p) = none := by
  by_contra h
  exact hdir (item_below hrel h)

theorem item_append_eq_none (h : t.item p = none) (rel : List N) : t.item (rel ++ p) = none := by
  by_cases hrel : rel = []
  · rw [hrel, List.nil_append, h]
  · exact item_below_eq_none (by simp [h]) hrel

end

/-! ## Names and height -/

/-- The length of the longest path. -/
def height (t : FileTree N B) : Nat :=
  (t.nodes.toList.map fun q => q.1.length).foldr max 0

theorem length_le_height [Std.LawfulEqOrd N] {t : FileTree N B} {p : List N}
    (h : t.item p ≠ none) : p.length ≤ t.height := by
  obtain ⟨node, hnode⟩ := Option.ne_none_iff_exists'.mp (item_eq_none_iff.not.mp h)
  have hmem : p.length ∈ t.nodes.toList.map fun q => q.1.length :=
    List.mem_map.mpr ⟨(p, node), OrdMap.mem_toList.mpr hnode, rfl⟩
  exact List.le_max_of_le hmem le_rfl

theorem item_ne_other_of_all [Std.LawfulEqOrd N] {t : FileTree N B}
    (h : t.nodes.toList.all (fun q => decide (q.2 ≠ .other)) = true) (p : List N) :
    t.item p ≠ some .other := by
  intro hitem
  have hmem := OrdMap.mem_toList.mpr (item_eq_other_iff.mp hitem)
  exact of_decide_eq_true (List.all_eq_true.mp h _ hmem) rfl

section

variable [DecidableEq N]

/-- The names in a directory. -/
def names (t : FileTree N B) (p : List N) : List N :=
  t.nodes.toList.filterMap fun q => nameIn p q.1

variable [Std.LawfulEqOrd N] {t : FileTree N B} {p : List N}

theorem mem_names {name : N} : name ∈ t.names p ↔ t.item (name :: p) ≠ none := by
  rw [names, List.mem_filterMap, ne_eq, item_eq_none_iff, ← ne_eq, Option.ne_none_iff_exists']
  constructor
  · rintro ⟨⟨q, node⟩, hmem, hname⟩
    rw [nameIn_eq_some_iff] at hname
    subst hname
    exact ⟨node, OrdMap.mem_toList.mp hmem⟩
  · rintro ⟨node, hnode⟩
    exact ⟨(name :: p, node), OrdMap.mem_toList.mpr hnode, nameIn_eq_some_iff.mpr rfl⟩

theorem nodup_names : (t.names p).Nodup := by
  refine List.Pairwise.filterMap _ (fun a b hdistinct => ?_) Std.ExtTreeMap.distinct_keys_toList
  intro name hname name' hname' heq
  subst heq
  refine hdistinct (Std.compare_eq_iff_eq.mpr ?_)
  rw [nameIn_eq_some_iff.mp hname, nameIn_eq_some_iff.mp hname']

end

/-! ## Additions and writes -/

section

variable [Std.LawfulEqOrd N]

/-- Something new in a directory, with contents for new files. -/
def add (t : FileTree N B) (name : N) (p : List N) (node : FileNode) (contents : List B)
    (hdir : t.nodes[p]? = some .dir) (hfree : t.nodes[name :: p]? = none)
    (hnode : ∀ i, node = .file i → i < (t.inodes ++ contents).length) : FileTree N B where
  nodes := t.nodes.insert (name :: p) node
  inodes := t.inodes ++ contents
  parent := by
    intro name' p' node' h
    have hdir' : t.nodes[p']? = some .dir := by
      by_cases heq : name :: p = name' :: p'
      · cases heq
        exact hdir
      · rw [OrdMap.get_insert_of_ne _ _ heq] at h
        exact t.parent name' p' node' h
    rw [OrdMap.get_insert_of_ne, hdir']
    rintro rfl
    rw [hfree] at hdir'
    cases hdir'
  bound := by
    intro p' i h
    by_cases heq : name :: p = p'
    · subst heq
      rw [Std.ExtTreeMap.getElem?_insert_self] at h
      exact hnode i (Option.some.inj h)
    · rw [OrdMap.get_insert_of_ne _ _ heq] at h
      exact (t.bound p' i h).trans_le (by simp)

/-- The tree of an empty root directory. -/
def root : FileTree N B where
  nodes := (∅ : OrdMap (List N) FileNode).insert [] .dir
  inodes := []
  parent := by
    intro name p node h
    rw [OrdMap.get_insert_of_ne _ _ (List.cons_ne_nil name p).symm] at h
    simp at h
  bound := by
    intro p i h
    by_cases hp : [] = p
    · subst hp
      rw [Std.ExtTreeMap.getElem?_insert_self] at h
      cases h
    · rw [OrdMap.get_insert_of_ne _ _ hp] at h
      simp at h

/-- Another content behind all links to it. -/
def write (t : FileTree N B) (i : Nat) (content : B) : FileTree N B where
  nodes := t.nodes
  inodes := t.inodes.set i content
  parent := t.parent
  bound := by
    intro p j h
    rw [List.length_set]
    exact t.bound p j h

section

variable {t : FileTree N B} {name : N} {p : List N} {node : FileNode} {contents : List B}
  {hdir : t.nodes[p]? = some .dir} {hfree : t.nodes[name :: p]? = none}
  {hnode : ∀ i, node = .file i → i < (t.inodes ++ contents).length}

theorem item_add_of_ne {q : List N} (hq : q ≠ name :: p) :
    (t.add name p node contents hdir hfree hnode).item q = t.item q := by
  have hget : (t.add name p node contents hdir hfree hnode).nodes[q]? = t.nodes[q]? :=
    OrdMap.get_insert_of_ne _ _ hq.symm
  cases h : t.nodes[q]? with
  | none => rw [item_eq_none_iff.mpr h, item_eq_none_iff.mpr (hget.trans h)]
  | some node' =>
      cases node' with
      | dir => rw [item_eq_dir_iff.mpr h, item_eq_dir_iff.mpr (hget.trans h)]
      | other => rw [item_eq_other_iff.mpr h, item_eq_other_iff.mpr (hget.trans h)]
      | file i =>
          have hcontent : (t.inodes ++ contents)[i]? = t.inodes[i]? :=
            List.getElem?_append_left (t.bound q i h)
          simp only [item, hget, h]
          exact congrArg _ hcontent

theorem get_add_self :
    (t.add name p node contents hdir hfree hnode).nodes[name :: p]? = some node :=
  Std.ExtTreeMap.getElem?_insert_self

end

/-- Something new at a path, if its parent is a directory and nothing stands there. -/
def place (t : FileTree N B) (node : FileNode) (contents : List B)
    (hnode : ∀ i, node = .file i → i < (t.inodes ++ contents).length) :
    List N → Option (FileTree N B)
  | [] => none
  | name :: p =>
      if h : t.nodes[p]? = some .dir ∧ t.nodes[name :: p]? = none then
        some (t.add name p node contents h.1 h.2 hnode)
      else none

def mkdir (t : FileTree N B) (p : List N) : Option (FileTree N B) :=
  t.place .dir [] (fun _ h => nomatch h) p

/-- A new file with a content of its own. -/
def create (t : FileTree N B) (content : B) (p : List N) : Option (FileTree N B) :=
  t.place (.file t.inodes.length) [content] (fun i h => by cases h; simp) p

/-- A new link to the content of a file. -/
def link (t : FileTree N B) (original p : List N) : Option (FileTree N B) :=
  match h : t.nodes[original]? with
  | some (.file i) =>
      t.place (.file i) [] (fun j hj => by cases hj; simpa using t.bound original i h) p
  | _ => none

/-- In the second tree `p` has become `new`, and nothing else has changed. -/
structure Added (t t' : FileTree N B) (p : List N) (new : FileItem B) : Prop where
  self : t'.item p = some new
  others : ∀ q, q ≠ p → t'.item q = t.item q

section

variable {t : FileTree N B} {name : N} {p : List N}

theorem exists_place {node : FileNode} {contents : List B}
    {hnode : ∀ i, node = .file i → i < (t.inodes ++ contents).length}
    (hdir : t.item p = some .dir) (hfree : t.item (name :: p) = none) :
    ∃ t', t.place node contents hnode (name :: p) = some t' ∧
      t'.nodes[name :: p]? = some node ∧ t'.inodes = t.inodes ++ contents ∧
      ∀ q, q ≠ name :: p → t'.item q = t.item q := by
  rw [item_eq_dir_iff] at hdir
  rw [item_eq_none_iff] at hfree
  rw [place, dif_pos ⟨hdir, hfree⟩]
  exact ⟨_, rfl, get_add_self, rfl, fun q hq => item_add_of_ne hq⟩

theorem exists_mkdir (hdir : t.item p = some .dir) (hfree : t.item (name :: p) = none) :
    ∃ t', t.mkdir (name :: p) = some t' ∧ Added t t' (name :: p) .dir := by
  obtain ⟨t', hplace, hself, _, hothers⟩ := exists_place hdir hfree
  exact ⟨t', hplace, item_eq_dir_iff.mpr hself, hothers⟩

theorem exists_create (content : B) (hdir : t.item p = some .dir)
    (hfree : t.item (name :: p) = none) :
    ∃ t', t.create content (name :: p) = some t' ∧ Added t t' (name :: p) (.file content) := by
  obtain ⟨t', hplace, hself, hinodes, hothers⟩ := exists_place hdir hfree
  refine ⟨t', hplace, ?_, hothers⟩
  obtain ⟨b, hb, hitem⟩ := item_of_file hself
  rw [hinodes, List.getElem?_concat_length] at hb
  rw [hitem, Option.some.inj hb]

theorem exists_link {original : List N} {content : B}
    (horiginal : t.item original = some (.file content)) (hdir : t.item p = some .dir)
    (hfree : t.item (name :: p) = none) :
    ∃ t', t.link original (name :: p) = some t' ∧ Added t t' (name :: p) (.file content) := by
  obtain ⟨i, hnode, hi⟩ := exists_of_item_file horiginal
  unfold link
  split
  next i' hnode' =>
    obtain rfl : i = i' := by
      rw [hnode] at hnode'
      cases hnode'
      rfl
    obtain ⟨t', hplace, hself, hinodes, hothers⟩ := exists_place hdir hfree
    refine ⟨t', hplace, ?_, hothers⟩
    obtain ⟨b, hb, hitem⟩ := item_of_file hself
    rw [hinodes, List.append_nil, hi] at hb
    rw [hitem, Option.some.inj hb]
  next hnone => exact absurd hnode (hnone i)

end

end

/-! ## Copies -/

/-- In the second tree `dst` reads as `src` did in the first one. -/
def CopiedTo (t t' : FileTree N B) (src dst : List N) : Prop :=
  ∀ rel, t'.item (rel ++ dst) = t.item (rel ++ src)

/-- The trees differ only at and below a path. -/
def SameOutside (t t' : FileTree N B) (p : List N) : Prop :=
  ∀ q, ¬ p <:+ q → t'.item q = t.item q

theorem SameOutside.trans {t₁ t₂ t₃ : FileTree N B} {p : List N} (h₁ : SameOutside t₁ t₂ p)
    (h₂ : SameOutside t₂ t₃ p) : SameOutside t₁ t₃ p :=
  fun q hq => (h₂ q hq).trans (h₁ q hq)

theorem SameOutside.of_cons {t t' : FileTree N B} {name : N} {p : List N}
    (h : SameOutside t t' (name :: p)) : SameOutside t t' p :=
  fun q hq => h q fun hsuffix => hq ((List.suffix_cons name p).trans hsuffix)

theorem Added.sameOutside {t t' : FileTree N B} {p : List N} {new : FileItem B}
    (h : Added t t' p new) : SameOutside t t' p := by
  intro q hq
  refine h.others q ?_
  rintro rfl
  exact hq (List.suffix_refl q)

/-- A new file is a copy of a file with the same content. -/
theorem Added.copiedTo {t t' : FileTree N B} {src dst : List N} {content : B}
    (h : Added t t' dst (.file content)) (hsrc : t.item src = some (.file content)) :
    CopiedTo t t' src dst := by
  intro rel
  by_cases hrel : rel = []
  · subst hrel
    exact h.self.trans hsrc.symm
  · rw [item_below_eq_none (by simp [h.self]) hrel, item_below_eq_none (by simp [hsrc]) hrel]

/-- No directory holds a copy of itself. -/
theorem not_copiedTo_below [Std.LawfulEqOrd N] {t : FileTree N B} {src k : List N} (hk : k ≠ [])
    (hsrc : t.item src ≠ none) : ¬ CopiedTo t t src (k ++ src) := by
  intro hcopy
  -- each copy holds a copy further down
  have hdeep : ∀ n, ∃ rel, n ≤ rel.length ∧ t.item (rel ++ src) ≠ none := by
    intro n
    induction n with
    | zero => exact ⟨[], Nat.zero_le _, hsrc⟩
    | succ n ih =>
        obtain ⟨rel, hlen, hrel⟩ := ih
        refine ⟨rel ++ k, ?_, ?_⟩
        · have hpos := List.length_pos_of_ne_nil hk
          rw [List.length_append]
          omega
        · rw [List.append_assoc, hcopy rel]
          exact hrel
  obtain ⟨rel, hlen, hrel⟩ := hdeep (t.height + 1)
  have hle := length_le_height hrel
  rw [List.length_append] at hle
  omega

end FileTree
