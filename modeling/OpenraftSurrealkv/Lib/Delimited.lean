import OpenraftSurrealkv.Lib.OrdMap
import OpenraftSurrealkv.Lib.Postcard

/-!
# Self-delimiting bytes

A byte format whose values end by themselves.  Unlike a postcard codec it has no
size limit: a list is written with a `1` before each element and a `0` at the
end, so no length has to fit an integer.
-/

namespace OpenraftSurrealkv

/-- A format that reads back what it writes and leaves the rest. -/
structure Delimited (α : Type) where
  put : α → Bytes
  take : Bytes → Option (α × Bytes)
  take_put : ∀ a rest, take (put a ++ rest) = some (a, rest)

namespace Delimited

variable {α β : Type}

/-- A codec whose values are all small. -/
def ofCodec (c : Postcard.Codec α) (h : ∀ a, (c.encode a).length < 2 ^ 64) : Delimited α where
  put := c.encode
  take bytes := (c.decode bytes).toOption
  take_put a rest := by
    rw [c.decode_encode a rest (h a)]
    rfl

/-- A format for another type, by a map with a right inverse. -/
def iso (d : Delimited α) (f : α → β) (g : β → α) (h : ∀ b, f (g b) = b) : Delimited β where
  put b := d.put (g b)
  take bytes := (d.take bytes).map fun p => (f p.1, p.2)
  take_put b rest := by
    rw [d.take_put, Option.map_some, h]

def pair (d : Delimited α) (e : Delimited β) : Delimited (α × β) where
  put p := d.put p.1 ++ e.put p.2
  take bytes := (d.take bytes).bind fun p => (e.take p.2).map fun q => ((p.1, q.1), q.2)
  take_put p rest := by
    rw [List.append_assoc, d.take_put, Option.bind_some, e.take_put, Option.map_some]

def putList (d : Delimited α) : List α → Bytes
  | [] => [0]
  | a :: as => 1 :: (d.put a ++ putList d as)

/-- Read a list of fewer than `fuel` elements. -/
def takeList (d : Delimited α) : Nat → Bytes → Option (List α × Bytes)
  | 0, _ => none
  | _ + 1, [] => none
  | fuel + 1, b :: bytes =>
      if b = 0 then some ([], bytes)
      else (d.take bytes).bind fun p =>
        (takeList d fuel p.2).map fun q => (p.1 :: q.1, q.2)

theorem takeList_putList (d : Delimited α) :
    ∀ (as : List α) (fuel : Nat) (rest : Bytes), as.length < fuel →
      takeList d fuel (putList d as ++ rest) = some (as, rest)
  | _, 0, _, h => absurd h (Nat.not_lt_zero _)
  | [], _ + 1, _, _ => rfl
  | a :: as, fuel + 1, rest, h => by
      have hlen : as.length < fuel := Nat.lt_of_succ_lt_succ h
      have hput : putList d (a :: as) ++ rest = 1 :: (d.put a ++ (putList d as ++ rest)) := by
        rw [putList, List.cons_append, List.append_assoc]
      rw [hput, takeList, if_neg (by decide), d.take_put, Option.bind_some,
        takeList_putList d as fuel rest hlen, Option.map_some]

theorem length_putList (d : Delimited α) : ∀ as : List α, as.length < (putList d as).length
  | [] => Nat.zero_lt_one
  | a :: as => by
      have ih := length_putList d as
      simp only [putList, List.length_cons, List.length_append]
      omega

def list (d : Delimited α) : Delimited (List α) where
  put := putList d
  take bytes := takeList d bytes.length bytes
  take_put as rest := by
    refine takeList_putList d as _ rest ?_
    have h := length_putList d as
    rw [List.length_append]
    omega

def option (d : Delimited α) : Delimited (Option α) :=
  d.list.iso List.head? Option.toList fun o => by cases o <;> rfl

/-- A map is the map of its list of entries. -/
theorem ofList_toList {K V : Type} [Ord K] [Std.TransOrd K] [Std.LawfulEqOrd K] [DecidableEq K]
    (m : OrdMap K V) : (Std.ExtTreeMap.ofList m.toList : OrdMap K V) = m := by
  refine Std.ExtTreeMap.ext_getElem? fun k => ?_
  cases hk : m[k]? with
  | none =>
      refine Std.ExtTreeMap.getElem?_ofList_of_contains_eq_false ?_
      rw [← Bool.not_eq_true, List.contains_iff_mem, List.mem_map]
      rintro ⟨⟨a, v⟩, hmem, rfl⟩
      rw [OrdMap.mem_toList.mp hmem] at hk
      cases hk
  | some v =>
      exact Std.ExtTreeMap.getElem?_ofList_of_mem Std.ReflCmp.compare_self
        Std.ExtTreeMap.distinct_keys_toList (OrdMap.mem_toList.mpr hk)

def ordMap {K V : Type} [Ord K] [Std.TransOrd K] [Std.LawfulEqOrd K] [DecidableEq K]
    (d : Delimited (K × V)) : Delimited (OrdMap K V) :=
  d.list.iso (fun l => Std.ExtTreeMap.ofList l) (fun m => m.toList) ofList_toList

end Delimited

end OpenraftSurrealkv
