import SqliteAccess.Sql.Identifier

/-!
The lexemes of a text: what stands in double quotes is a name, what stands in single quotes a literal,
and outside of both each character is by itself. Nothing of a text is lost in its lexemes.
-/

namespace SqliteAccess.Sql

inductive Lexeme where
  | name (s : List Char)
  | literal (s : List Char)
  | bare (c : Char)
deriving DecidableEq, Repr

def isQuote (c : Char) : Bool := c = '"' || c = '\''

def unquoted (s : List Char) : Bool := s.all fun c => !isQuote c

inductive Place where
  | outside
  | inside (quote : Char) (s : List Char)
  | closing (quote : Char) (s : List Char)

namespace Lexeme

def quoted (quote : Char) (s : List Char) : Lexeme := if quote = '"' then name s else literal s

def bares (s : String) : List Lexeme := s.toList.map bare

def scan : Place → List Char → Option (List Lexeme)
  | .outside, [] => some []
  | .inside _ _, [] => none
  | .closing q s, [] => some [quoted q s]
  | .outside, c :: r => if isQuote c then scan (.inside c []) r else (scan .outside r).map (bare c :: ·)
  | .inside q s, c :: r => if c = q then scan (.closing q s) r else scan (.inside q (s ++ [c])) r
  | .closing q s, c :: r =>
    if c = q then scan (.inside q (s ++ [q])) r
    else (if isQuote c then scan (.inside c []) r
      else (scan .outside r).map (bare c :: ·)).map (quoted q s :: ·)

end Lexeme

/-- The lexemes of a text, unless it ends inside quotes. -/
def lexemes? (s : String) : Option (List Lexeme) := Lexeme.scan .outside s.toList

def Apart (s : List Char) : Prop := ∀ c ∈ s.head?, isQuote c = false

def Scans (s : List Char) (ts : List Lexeme) : Prop :=
  ∀ rest, Apart rest → Lexeme.scan .outside (s ++ rest) = (Lexeme.scan .outside rest).map (ts ++ ·)

theorem apart_nil : Apart [] := nofun

theorem apart_cons {c : Char} (h : isQuote c = false) (s : List Char) : Apart (c :: s) := by
  rintro d ⟨⟩
  exact h

theorem Apart.append {s s' : List Char} (h : Apart s) (h' : Apart s') : Apart (s ++ s') := by
  cases s with
  | nil => exact h'
  | cons c s => exact h

theorem Apart.append_of_ne {s : List Char} (h : Apart s) (hs : s ≠ []) (s' : List Char) :
    Apart (s ++ s') := by
  cases s with
  | nil => exact absurd rfl hs
  | cons c s => exact h

namespace Lexeme

attribute [local simp] scan Identifier.doubled

theorem scan_closing (q : Char) (s : List Char) {rest : List Char} (h : rest.head? ≠ some q) :
    scan (.closing q s) rest = (scan .outside rest).map (quoted q s :: ·) := by
  cases rest with
  | nil => rfl
  | cons c r =>
    have hc : c ≠ q := by simpa using h
    simp [hc]

theorem scan_inside (q : Char) (s t rest : List Char) :
    scan (.inside q s) (Identifier.doubled q t ++ q :: rest) = scan (.closing q (s ++ t)) rest := by
  induction t generalizing s with
  | nil => simp
  | cons c t ih =>
    have hs := ih (s ++ [c])
    rw [List.append_assoc, List.singleton_append] at hs
    by_cases hc : c = q
    · subst hc
      simpa using hs
    · simpa [hc] using hs

theorem scan_inside_eq_some {q : Char} (s x : List Char) {ts : List Lexeme}
    (h : scan (.inside q s) x = some ts) : ∃ t rest ts', x = Identifier.doubled q t ++ q :: rest ∧
      rest.head? ≠ some q ∧ ts = quoted q (s ++ t) :: ts' := by
  match x with
  | [] => cases h
  | [c] =>
    by_cases hc : c = q
    · subst hc
      simp only [scan, if_true, Option.some.injEq] at h
      exact ⟨[], [], [], rfl, nofun, by simp [h]⟩
    · simp [hc] at h
  | c :: d :: r =>
    by_cases hc : c = q
    · subst hc
      by_cases hd : d = c
      · subst hd
        simp only [scan, if_true] at h
        obtain ⟨t, rest, ts', rfl, hrest, rfl⟩ := scan_inside_eq_some (s ++ [d]) r h
        exact ⟨d :: t, rest, ts', by simp, hrest, by simp⟩
      · rw [scan, if_pos rfl, scan_closing c s (by simpa using hd), Option.map_eq_some_iff] at h
        obtain ⟨ts', -, rfl⟩ := h
        exact ⟨[], d :: r, ts', rfl, by simpa using hd, by simp⟩
    · rw [scan, if_neg hc] at h
      obtain ⟨t, rest, ts', hx, hrest, rfl⟩ := scan_inside_eq_some (s ++ [c]) (d :: r) h
      exact ⟨c :: t, rest, ts', by simp [hc, hx], hrest, by simp⟩
termination_by x.length

theorem scan_bare {s : List Char} (hs : unquoted s = true) (rest : List Char) :
    scan .outside (s ++ rest) = (scan .outside rest).map (s.map bare ++ ·) := by
  induction s with
  | nil => simp
  | cons c s ih =>
    simp only [unquoted, List.all_cons, Bool.and_eq_true, Bool.not_eq_true'] at hs
    simp [hs.1, ih hs.2, Function.comp_def]

end Lexeme

theorem forall_mem_intercalate {α : Type} {P : α → Prop} {sep : List α} {xs : List (List α)}
    (hsep : ∀ t ∈ sep, P t) (h : ∀ x ∈ xs, ∀ t ∈ x, P t) : ∀ t ∈ List.intercalate sep xs, P t := by
  induction xs with
  | nil => nofun
  | cons x xs ih =>
    rw [List.forall_mem_cons] at h
    cases xs with
    | nil => simpa using h.1
    | cons y ys =>
      intro t ht
      rw [List.intercalate_cons_cons, List.mem_append, List.mem_append] at ht
      rcases ht with (ht | ht) | ht
      · exact h.1 t ht
      · exact hsep t ht
      · exact ih h.2 t ht

theorem mapM_map_eq_some {α β γ : Type} {f : β → Option γ} {g : α → β} {h : α → γ} {xs : List α}
    (hf : ∀ x ∈ xs, f (g x) = some (h x)) : (xs.map g).mapM f = some (xs.map h) := by
  induction xs with
  | nil => rfl
  | cons x xs ih =>
    rw [List.forall_mem_cons] at hf
    rw [List.map_cons, List.mapM_cons, hf.1, ih hf.2]
    rfl

namespace Scans

open Lexeme

variable {s s' : List Char} {ts ts' : List Lexeme}

theorem scan_eq (h : Scans s ts) : scan .outside s = some ts := by
  have hs := h [] apart_nil
  simpa [scan] using hs

theorem nil : Scans [] [] := fun rest _ => by simp

theorem quotedWith {q : Char} (hq : isQuote q = true) (s : List Char) :
    Scans (Identifier.quotedWith q s) [quoted q s] := by
  intro rest hr
  have hhead : rest.head? ≠ some q := by
    intro he
    have hf := hr q he
    simp [hq] at hf
  simpa [Identifier.quotedWith, scan, hq, scan_inside] using scan_closing q s hhead

theorem append (h : Scans s ts) (h' : Scans s' ts') (ha : Apart s') :
    Scans (s ++ s') (ts ++ ts') := by
  intro rest hr
  rw [List.append_assoc, h _ (ha.append hr), h' _ hr, Option.map_map]
  simp [Function.comp_def]

theorem bare_append {b : List Char} (hb : unquoted b = true) (h : Scans s ts) :
    Scans (b ++ s) (b.map bare ++ ts) := by
  intro rest hr
  rw [List.append_assoc, scan_bare hb, h _ hr, Option.map_map]
  simp [Function.comp_def]

theorem bare {b : List Char} (hb : unquoted b = true) : Scans b (b.map bare) := by
  have h := bare_append hb nil
  simpa using h

theorem intercalate {α : Type} (sep : List Char) {f : α → List Char} {g : α → List Lexeme}
    (xs : List α) (hsep : unquoted sep = true) (hne : sep ≠ [])
    (h : ∀ x ∈ xs, Scans (f x) (g x)) :
    Scans (List.intercalate sep (xs.map f)) (List.intercalate (sep.map .bare) (xs.map g)) := by
  have hapart : Apart sep := by
    intro c hc
    simpa using List.all_eq_true.mp hsep c (List.mem_of_mem_head? hc)
  induction xs with
  | nil => exact nil
  | cons x xs ih =>
    have hx := h x List.mem_cons_self
    have hr := ih fun y hy => h y (List.mem_cons_of_mem _ hy)
    cases xs with
    | nil => simpa using hx
    | cons y ys =>
      have hrest := bare_append hsep hr
      simpa [List.intercalate_cons_cons] using hx.append hrest (hapart.append_of_ne hne _)

theorem flatMap {α : Type} {f : α → List Char} {g : α → List Lexeme} (xs : List α)
    (h : ∀ x ∈ xs, Scans (f x) (g x)) (ha : ∀ x ∈ xs, Apart (f x)) :
    Scans (xs.flatMap f) (xs.flatMap g) ∧ Apart (xs.flatMap f) := by
  induction xs with
  | nil => exact ⟨nil, apart_nil⟩
  | cons x xs ih =>
    rw [List.forall_mem_cons] at h ha
    obtain ⟨hs, hsa⟩ := ih h.2 ha.2
    exact ⟨h.1.append hs hsa, ha.1.append hsa⟩

end Scans

end SqliteAccess.Sql
