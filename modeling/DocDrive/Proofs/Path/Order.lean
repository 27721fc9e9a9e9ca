import DocDrive.Proofs.Path.Normal
import Mathlib.Data.List.Nodup

/-!
# The order of paths

Paths are compared component by component, names by their bytes. On paths this is a total preorder,
and on normal paths a total order: what is sorted by normal paths, each once, has one order only.

* `Component.order` is a lawful comparison; so is that of lists of components.
* `Path.le_trans`, `Path.le_total`, `Path.Normal.eq_of_le_of_le` — the order on normal paths.
* `Path.mergeSort_eq_of_perm` — sorting by distinct normal paths forgets the order before.
-/

namespace DocDrive

namespace Component

theorem compareBytes_eq_compareLex (as bs : Bytes) :
    compareBytes as bs = List.compareLex compare as bs := by
  induction as generalizing bs with
  | nil => cases bs <;> rfl
  | cons a as ih =>
    cases bs with
    | nil => rfl
    | cons b bs =>
      rw [compareBytes, List.compareLex_cons_cons, ih]
      cases compare a b <;> rfl

instance : Std.OrientedCmp order where
  eq_swap {a b} := by
    cases a <;> cases b
    case normal.normal a b =>
      simp only [order, compareBytes_eq_compareLex]
      exact Std.OrientedCmp.eq_swap
    all_goals rfl

instance : Std.TransCmp order where
  isLE_trans {a b c} hab hbc := by
    cases a <;> cases b <;> cases c
    case normal.normal.normal a b c =>
      simp only [order, compareBytes_eq_compareLex] at *
      exact Std.TransCmp.isLE_trans hab hbc
    all_goals first
      | rfl
      | exact absurd hab Bool.false_ne_true
      | exact absurd hbc Bool.false_ne_true

instance : Std.LawfulEqCmp order where
  compare_self {a} := by
    cases a
    case normal a =>
      simp only [order, compareBytes_eq_compareLex]
      exact Std.ReflCmp.compare_self
    all_goals rfl
  eq_of_compare {a b} h := by
    cases a <;> cases b
    case normal.normal a b =>
      simp only [order, compareBytes_eq_compareLex] at h
      exact congrArg _ (Std.LawfulEqCmp.eq_of_compare h)
    all_goals first | rfl | cases h

end Component

namespace Path

variable {p q r : Path}

theorem orderComponents_eq_compareLex (as bs : List Component) :
    orderComponents as bs = List.compareLex Component.order as bs := by
  induction as generalizing bs with
  | nil => cases bs <;> rfl
  | cons a as ih =>
    cases bs with
    | nil => rfl
    | cons b bs =>
      rw [orderComponents, List.compareLex_cons_cons, ih]
      cases a.order b <;> rfl

theorem le_eq_isLE (p q : Path) :
    p.le q = (List.compareLex Component.order p.components q.components).isLE := by
  rw [le, order, orderComponents_eq_compareLex]
  cases List.compareLex Component.order p.components q.components <;> rfl

theorem le_trans (hpq : p.le q = true) (hqr : q.le r = true) : p.le r = true := by
  rw [le_eq_isLE] at *
  exact Std.TransCmp.isLE_trans hpq hqr

theorem le_total (p q : Path) : (p.le q || q.le p) = true := by
  rw [le_eq_isLE, le_eq_isLE, Bool.or_eq_true]
  have hswap : List.compareLex Component.order p.components q.components =
      (List.compareLex Component.order q.components p.components).swap := Std.OrientedCmp.eq_swap
  rw [hswap]
  cases List.compareLex Component.order q.components p.components <;> simp

/-- **Normal paths that come no later than each other are the same.** -/
theorem Normal.eq_of_le_of_le (hp : p.Normal) (hq : q.Normal) (hpq : p.le q = true)
    (hqp : q.le p = true) : p = q := by
  rw [le_eq_isLE] at hpq hqp
  have hcomponents : p.components = q.components :=
    Std.LawfulEqCmp.eq_of_compare (Std.OrientedCmp.isLE_antisymm hpq hqp)
  rw [← hp.plain, hcomponents, hq.plain]

/-! ## Sorting -/

section Sorting

variable {α : Type} {l l' : List (Path × α)}

/-- The order of things by their paths. -/
def leFst (a b : Path × α) : Bool := a.1.le b.1

theorem pairwise_mergeSort_leFst (l : List (Path × α)) :
    (l.mergeSort leFst).Pairwise fun a b => a.1.le b.1 = true := by
  have htrans : ∀ a b c : Path × α, leFst a b = true → leFst b c = true → leFst a c = true :=
    fun _ _ _ => le_trans
  have htotal : ∀ a b : Path × α, (leFst a b || leFst b a) = true :=
    fun a b => le_total a.1 b.1
  exact List.pairwise_mergeSort htrans htotal l

/-- **Sorting by distinct normal paths forgets the order before.** -/
theorem mergeSort_eq_of_perm (h : l.Perm l') (hdistinct : (l.map Prod.fst).Nodup)
    (hnormal : ∀ a ∈ l, a.1.Normal) : l.mergeSort leFst = l'.mergeSort leFst := by
  have hsorted : (l.mergeSort leFst).Perm l := List.mergeSort_perm l leFst
  have hsorted' : (l'.mergeSort leFst).Perm l := (List.mergeSort_perm l' leFst).trans h.symm
  refine List.Perm.eq_of_pairwise (fun a b ha hb hab hba => ?_) (pairwise_mergeSort_leFst l)
    (pairwise_mergeSort_leFst l') (hsorted.trans hsorted'.symm)
  have ha := hsorted.mem_iff.1 ha
  have hb := hsorted'.mem_iff.1 hb
  have hpath := (hnormal a ha).eq_of_le_of_le (hnormal b hb) hab hba
  exact List.inj_on_of_nodup_map hdistinct ha hb hpath

end Sorting

end Path

end DocDrive
