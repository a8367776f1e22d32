import StatRollup.Uid.Journal

/-!
# Lookups after every change

What the tables answer after each change, as equations of lookups.  Later proofs never open the
trees: a lookup after `mapName`, `putName`, `dropName` and `raise` is given here.
-/

namespace StatRollup.Uid.Tables

variable {t : Tables} {n m : String} {u v : Uid}

/-! ## The forward table -/

theorem idOf?_eq_getElem? : t.idOf? n = t.forward[n]? := rfl

theorem contains_forward : t.forward.contains n = (t.idOf? n).isSome := by
  rw [idOf?_eq_getElem?, Std.TreeMap.contains_eq_isSome_getElem?]

theorem idOf?_mapName :
    (t.mapName n u).idOf? m = if n = m ∧ t.idOf? n = none then some u else t.idOf? m := by
  have hmem : n ∉ t.forward ↔ t.idOf? n = none := by
    rw [← Std.TreeMap.contains_iff_mem, contains_forward]
    simp
  rw [idOf?_eq_getElem?, mapName, Std.TreeMap.getElem?_insertIfNew]
  simp only [Std.LawfulEqCmp.compare_eq_iff_eq, hmem]
  rfl

/-- A name that is mapped keeps its identifier. -/
theorem idOf?_mapName_of_mapped (h : t.idOf? m = some v) : (t.mapName n u).idOf? m = some v := by
  rw [idOf?_mapName, if_neg, h]
  rintro ⟨rfl, hn⟩
  rw [h] at hn
  cases hn

/-- After a claim the name is mapped to what the claim was answered with. -/
theorem idOf?_mapName_self : (t.mapName n u).idOf? n = some ((t.idOf? n).getD u) := by
  rw [idOf?_mapName]
  cases hn : t.idOf? n with
  | none => rw [if_pos ⟨rfl, rfl⟩, Option.getD_none]
  | some v => rw [if_neg (by simp), Option.getD_some]

@[simp] theorem idOf?_putName : (t.putName u n).idOf? m = t.idOf? m := rfl

@[simp] theorem idOf?_dropName : (t.dropName u).idOf? m = t.idOf? m := rfl

@[simp] theorem idOf?_raise (k : UInt64) : (t.raise k).idOf? m = t.idOf? m := rfl

@[simp] theorem idOf?_empty (width : Nat) (sequence : UInt64) :
    (empty width sequence).idOf? n = none := by
  simp [idOf?_eq_getElem?, empty]

/-- Mapping a mapped name changes nothing at all. -/
theorem mapName_of_mapped (h : t.idOf? n = some v) : t.mapName n u = t := by
  have hc : t.forward.contains n = true := by rw [contains_forward, h]; rfl
  have hf : t.forward.insertIfNew n u = t.forward := by
    unfold Std.TreeMap.insertIfNew Std.DTreeMap.insertIfNew Std.DTreeMap.Internal.Impl.insertIfNew
    split
    · rfl
    · next hn => exact absurd hc hn
  rw [mapName, hf]

/-! ## The reverse table -/

theorem nameOf?_eq_getElem? : t.nameOf? u = t.reverse[u]? := rfl

theorem nameOf?_putName :
    (t.putName u n).nameOf? v = if u = v then some n else t.nameOf? v := by
  simp only [nameOf?_eq_getElem?, putName, Std.TreeMap.getElem?_insert,
    Std.LawfulEqCmp.compare_eq_iff_eq]

theorem nameOf?_dropName :
    (t.dropName u).nameOf? v = if u = v then none else t.nameOf? v := by
  simp only [nameOf?_eq_getElem?, dropName, Std.TreeMap.getElem?_erase,
    Std.LawfulEqCmp.compare_eq_iff_eq]

@[simp] theorem nameOf?_mapName : (t.mapName n u).nameOf? v = t.nameOf? v := rfl

@[simp] theorem nameOf?_raise (k : UInt64) : (t.raise k).nameOf? v = t.nameOf? v := rfl

@[simp] theorem nameOf?_empty (width : Nat) (sequence : UInt64) :
    (empty width sequence).nameOf? u = none := by
  simp [nameOf?_eq_getElem?, empty]

/-! ## The sequence -/

theorem toNat_sequence_add_one (h : t.sequence.toNat + 1 < 2 ^ 64) :
    (t.sequence + 1).toNat = t.sequence.toNat + 1 := by
  rw [UInt64.toNat_add, UInt64.toNat_one, Nat.mod_eq_of_lt h]

theorem lt_sequence_add_one (h : t.sequence.toNat + 1 < 2 ^ 64) : t.sequence < t.sequence + 1 := by
  rw [UInt64.lt_iff_toNat_lt, toNat_sequence_add_one h]
  exact Nat.lt_succ_self _

/-! ## Requests -/

/-- No request changes a mapping. -/
theorem idOf?_perform (h : t.idOf? n = some u) (r : Request) :
    (t.perform r).2.idOf? n = some u := by
  cases r with
  | claim m v => exact idOf?_mapName_of_mapped h
  | idOf | nameOf | advance | putName | dropName | listAll => exact h

theorem perm_pairs (t : Tables) : t.pairs.Perm t.forward.toList := t.order.2 _

theorem mem_pairs : (n, u) ∈ t.pairs ↔ t.idOf? n = some u :=
  (perm_pairs t).mem_iff.trans Std.TreeMap.mem_toList_iff_getElem?_eq_some

end StatRollup.Uid.Tables
