import SqliteAccess.Proofs.Sql.Naming

/-!
Texts taken apart at a separator that stands outside of quotes. Where a sign of the separator stands in no
item, the items are read as they have been joined.
-/

namespace SqliteAccess.Sql

namespace Lexeme

def cutAt (sep : String) (before : List Lexeme) : List Lexeme → Option (List Lexeme × List Lexeme)
  | [] => none
  | t :: ts =>
    match after? sep (t :: ts) with
    | some rest => some (before, rest)
    | none => cutAt sep (before ++ [t]) ts

def between (sep : String) : Nat → List Lexeme → List Lexeme → List (List Lexeme)
  | _, item, [] => [item]
  | skip + 1, item, _ :: ts => between sep skip item ts
  | 0, item, t :: ts =>
    if (after? sep (t :: ts)).isSome then item :: between sep (sep.length - 1) [] ts
    else between sep 0 (item ++ [t]) ts

theorem strip_eq {s : List Char} {ts r : List Lexeme} (h : strip s ts = some r) :
    ts = s.map bare ++ r := by
  induction s generalizing ts with
  | nil => exact Option.some.inj h
  | cons c s ih =>
    cases ts with
    | nil => cases h
    | cons t ts =>
      cases t with
      | bare d =>
        simp only [strip] at h
        split at h
        next hc => rw [ih h, hc]; rfl
        next => cases h
      | name | literal => cases h

section Separators

variable {sep : String} {b e : List Char} {d : Char} {x rest : List Lexeme}

theorem after?_eq_none (hsep : sep.toList = b ++ d :: e) (hd : d ∉ b) (hne : x ≠ [])
    (hx : bare d ∉ x) (hrest : rest = [] ∨ ∃ r, rest = bares sep ++ r) :
    after? sep (x ++ rest) = none := by
  by_contra hf
  obtain ⟨r, hr⟩ := Option.ne_none_iff_exists'.mp hf
  -- Its sign would stand so far behind the beginning: in the item, or too near the next separator.
  have hat : (x ++ rest)[b.length]? = some (bare d) := by
    rw [strip_eq hr, hsep]
    simp
  by_cases hlt : b.length < x.length
  · rw [List.getElem?_append_left hlt] at hat
    exact hx (List.mem_of_getElem? hat)
  · rw [List.getElem?_append_right (Nat.le_of_not_lt hlt)] at hat
    rcases hrest with rfl | ⟨r', rfl⟩
    · cases hat
    · have hpos := List.length_pos_iff.mpr hne
      rw [bares, hsep, List.map_append, List.append_assoc,
        List.getElem?_append_left (by simp only [List.length_map]; omega), List.getElem?_map,
        Option.map_eq_some_iff] at hat
      obtain ⟨c, hc, he⟩ := hat
      cases he
      exact hd (List.mem_of_getElem? hc)

theorem cutAt_append (hsep : sep.toList = b ++ d :: e) (hd : d ∉ b) (hx : bare d ∉ x)
    (start : List Lexeme) : cutAt sep start (x ++ (bares sep ++ rest)) = some (start ++ x, rest) := by
  induction x generalizing start with
  | nil =>
    have hat := after?_bares sep rest
    obtain ⟨t, ts, ht⟩ : ∃ t ts, bares sep ++ rest = t :: ts := by
      cases hs : bares sep ++ rest with
      | nil => simp [bares, hsep] at hs
      | cons t ts => exact ⟨t, ts, rfl⟩
    rw [ht] at hat
    rw [List.nil_append, ht, cutAt, hat, List.append_nil]
  | cons t x ih =>
    have hno := after?_eq_none hsep hd (List.cons_ne_nil t x) hx (.inr ⟨rest, rfl⟩)
    have hrest := ih (fun hm => hx (List.mem_cons_of_mem t hm)) (start ++ [t])
    rw [List.cons_append] at hno ⊢
    rw [cutAt, hno, hrest, List.append_assoc, List.singleton_append]

theorem cutAt_eq_none (hsep : sep.toList = b ++ d :: e) (hd : d ∉ b) (hx : bare d ∉ x) (start : List Lexeme) :
    cutAt sep start x = none := by
  induction x generalizing start with
  | nil => rfl
  | cons t x ih =>
    have hno := after?_eq_none hsep hd (List.cons_ne_nil t x) hx (.inl rfl)
    have hrest := ih (fun hm => hx (List.mem_cons_of_mem t hm)) (start ++ [t])
    rw [List.append_nil] at hno
    rw [cutAt, hno, hrest]

theorem between_skip (ys item : List Lexeme) :
    between sep ys.length item (ys ++ rest) = between sep 0 item rest := by
  induction ys with
  | nil => rfl
  | cons y ys ih => exact ih

theorem between_item (hsep : sep.toList = b ++ d :: e) (hd : d ∉ b) (hx : bare d ∉ x)
    (hrest : rest = [] ∨ ∃ r, rest = bares sep ++ r) (item : List Lexeme) :
    between sep 0 item (x ++ rest) = between sep 0 (item ++ x) rest := by
  induction x generalizing item with
  | nil => rw [List.nil_append, List.append_nil]
  | cons t x ih =>
    have hno := after?_eq_none hsep hd (List.cons_ne_nil t x) hx hrest
    have hmore := ih (fun hm => hx (List.mem_cons_of_mem t hm)) (item ++ [t])
    rw [List.cons_append] at hno ⊢
    rw [between, hno, Option.isSome_none, if_neg Bool.false_ne_true, hmore, List.append_assoc,
      List.singleton_append]

theorem between_bares (hsep : sep.toList ≠ []) (item : List Lexeme) :
    between sep 0 item (bares sep ++ rest) = item :: between sep 0 [] rest := by
  obtain ⟨c, cs, hc⟩ := List.exists_cons_of_ne_nil hsep
  have hat := after?_bares sep rest
  have hb : bares sep = bare c :: cs.map bare := by rw [bares, hc]; rfl
  have hlen : sep.length - 1 = (cs.map bare).length := by
    rw [← String.length_toList, hc, List.length_map]
    rfl
  rw [hb, List.cons_append] at hat ⊢
  rw [between, hat, Option.isSome_some, if_pos rfl, hlen, between_skip]

theorem between_intercalate (hsep : sep.toList = b ++ d :: e) (hd : d ∉ b)
    {xs : List (List Lexeme)} (hne : xs ≠ []) (hxs : ∀ x ∈ xs, bare d ∉ x) :
    between sep 0 [] (List.intercalate (bares sep) xs) = xs := by
  have hnil : sep.toList ≠ [] := by simp [hsep]
  induction xs with
  | nil => exact absurd rfl hne
  | cons x xs ih =>
    rw [List.forall_mem_cons] at hxs
    cases xs with
    | nil =>
      have h := between_item hsep hd hxs.1 (.inl rfl) []
      simpa [between] using h
    | cons y ys =>
      rw [List.intercalate_cons_cons, List.append_assoc, between_item hsep hd hxs.1 (.inr ⟨_, rfl⟩),
        between_bares hnil, ih (List.cons_ne_nil y ys) hxs.2, List.nil_append]

end Separators

end Lexeme

end SqliteAccess.Sql
