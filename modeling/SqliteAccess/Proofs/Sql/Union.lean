import Mathlib.Data.List.Pairwise
import Mathlib.Data.List.Perm.Basic

/-!
Rows gathered arm by arm, as `union` and `union all` gather them. Which of several equal rows is
left over is not fixed.
-/

namespace SqliteAccess.Sql

variable {α : Type} {same : α → α → Prop}

/-- One row out of every class of equal ones. -/
structure Distinct (same : α → α → Prop) (ts rs : List α) : Prop where
  drawn : ∀ r ∈ rs, r ∈ ts
  met : ∀ t ∈ ts, ∃ r ∈ rs, same t r
  apart : rs.Pairwise fun a b => ¬same a b

def Joined (same : α → α → Prop) : List α → List (Bool × α) → List α → Prop
  | got, [], rows => rows.Perm got
  | got, (true, t) :: arms, rows => Joined same (got ++ [t]) arms rows
  | got, (false, t) :: arms, rows =>
    ∃ left, Distinct same (got ++ [t]) left ∧ Joined same left arms rows

namespace Distinct

theorem perm (symm : ∀ a b, same a b → same b a) {ts rs rs' : List α} (h : Distinct same ts rs)
    (hp : rs'.Perm rs) : Distinct same ts rs' where
  drawn r hr := h.drawn r (hp.mem_iff.mp hr)
  met t ht := by
    obtain ⟨r, hr, e⟩ := h.met t ht
    exact ⟨r, hp.mem_iff.mpr hr, e⟩
  apart := (hp.pairwise_iff fun hab hba => hab (symm _ _ hba)).mpr h.apart

theorem keeping (refl : ∀ a, same a a) (kept ts : List α)
    (apart : kept.Pairwise fun a b => ¬same a b) :
    ∃ rs : List α, (∀ r ∈ kept, r ∈ rs) ∧ (∀ r ∈ rs, r ∈ kept ∨ r ∈ ts) ∧
      (∀ t ∈ ts, ∃ r ∈ rs, same t r) ∧ rs.Pairwise fun a b => ¬same a b := by
  induction ts generalizing kept with
  | nil => exact ⟨kept, fun _ h => h, fun _ h => .inl h, by simp, apart⟩
  | cons t ts ih =>
    by_cases ht : ∃ r ∈ kept, same t r
    · obtain ⟨r, hr, e⟩ := ht
      obtain ⟨rs, hk, hd, hm, ha⟩ := ih kept apart
      refine ⟨rs, hk, fun x hx => (hd x hx).imp_right (List.mem_cons_of_mem t), ?_, ha⟩
      simp only [List.forall_mem_cons]
      exact ⟨⟨r, hk r hr, e⟩, hm⟩
    · have hnew : ∀ r ∈ kept, ¬same t r := fun r hr e => ht ⟨r, hr, e⟩
      obtain ⟨rs, hk, hd, hm, ha⟩ := ih (t :: kept) (List.pairwise_cons.mpr ⟨hnew, apart⟩)
      simp only [List.forall_mem_cons] at hk ⊢
      refine ⟨rs, hk.2, fun x hx => ?_, ⟨⟨t, hk.1, refl t⟩, hm⟩, ha⟩
      rcases hd x hx with h | h
      · rcases List.mem_cons.mp h with rfl | h
        · exact .inr List.mem_cons_self
        · exact .inl h
      · exact .inr (List.mem_cons_of_mem t h)

theorem exists_distinct (refl : ∀ a, same a a) (ts : List α) : ∃ rs, Distinct same ts rs := by
  obtain ⟨rs, -, hd, hm, ha⟩ := keeping refl [] ts .nil
  exact ⟨rs, fun r hr => (hd r hr).resolve_left (List.not_mem_nil), hm, ha⟩

theorem append_iff (eqv : Equivalence same) {ts ts' rs : List α} :
    Distinct same (ts ++ ts') rs ↔ ∃ left, Distinct same ts left ∧ Distinct same (left ++ ts') rs := by
  classical
  constructor
  · intro h
    -- merging early must not lose a row that the later merge is to keep
    have hapart : (rs.filter (· ∈ ts)).Pairwise fun a b => ¬same a b := h.apart.filter _
    obtain ⟨left, hk, hd, hm, ha⟩ := keeping eqv.refl _ ts hapart
    have hdrawn : ∀ r ∈ left, r ∈ ts := by
      intro r hr
      rcases hd r hr with h' | h'
      · simpa using (List.mem_filter.mp h').2
      · exact h'
    refine ⟨left, ⟨hdrawn, hm, ha⟩, ?_, ?_, h.apart⟩
    · intro r hr
      by_cases hrt : r ∈ ts
      · exact List.mem_append_left _ (hk r (List.mem_filter.mpr ⟨hr, by simpa using hrt⟩))
      · exact List.mem_append_right _ ((List.mem_append.mp (h.drawn r hr)).resolve_left hrt)
    · intro t ht
      rcases List.mem_append.mp ht with ht | ht
      · exact h.met t (List.mem_append_left _ (hdrawn t ht))
      · exact h.met t (List.mem_append_right _ ht)
  · rintro ⟨left, hl, h⟩
    refine ⟨fun r hr => ?_, fun t ht => ?_, h.apart⟩
    · exact List.mem_append.mpr ((List.mem_append.mp (h.drawn r hr)).imp_left (hl.drawn r))
    · rcases List.mem_append.mp ht with ht | ht
      · obtain ⟨r, hr, e⟩ := hl.met t ht
        obtain ⟨r', hr', e'⟩ := h.met r (List.mem_append_left _ hr)
        exact ⟨r', hr', eqv.trans e e'⟩
      · exact h.met t (List.mem_append_right _ ht)

theorem iff_perm (eqv : Equivalence same) {ts rs : List α}
    (hts : ts.Pairwise fun a b => ¬same a b) : Distinct same ts rs ↔ rs.Perm ts := by
  have symm : ∀ a b, same a b → same b a := fun _ _ h => eqv.symm h
  have hself : Distinct same ts ts := ⟨fun _ h => h, fun t ht => ⟨t, ht, eqv.refl t⟩, hts⟩
  have hnodup : ∀ {xs : List α}, (xs.Pairwise fun a b => ¬same a b) → xs.Nodup :=
    List.Pairwise.imp fun {a b} hab (e : a = b) => hab (e ▸ eqv.refl a)
  refine ⟨fun h => ?_, hself.perm symm⟩
  refine (List.perm_ext_iff_of_nodup (hnodup h.apart) (hnodup hts)).mpr fun t => ?_
  refine ⟨h.drawn t, fun ht => ?_⟩
  obtain ⟨r, hr, e⟩ := h.met t ht
  have hrt : t = r := by
    by_contra hne
    have : Std.Symm fun a b => ¬same a b := ⟨fun _ _ hab hba => hab (symm _ _ hba)⟩
    exact hts.forall ht (h.drawn r hr) hne e
  exact hrt ▸ hr

end Distinct

theorem joined_merging (eqv : Equivalence same) (t : α) (ts got rows : List α) :
    Joined same got ((t :: ts).map (false, ·)) rows ↔ Distinct same (got ++ t :: ts) rows := by
  have symm : ∀ a b, same a b → same b a := fun _ _ h => eqv.symm h
  induction ts generalizing t got with
  | nil =>
    simp only [List.map_cons, List.map_nil, Joined]
    constructor
    · rintro ⟨left, h, hp⟩
      exact h.perm symm hp
    · intro h
      exact ⟨rows, h, .refl _⟩
  | cons t' ts ih =>
    rw [List.map_cons, Joined, List.append_cons got t (t' :: ts), Distinct.append_iff eqv]
    simp only [ih]

end SqliteAccess.Sql
