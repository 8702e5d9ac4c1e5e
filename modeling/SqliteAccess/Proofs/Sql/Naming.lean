import SqliteAccess.Proofs.Sql.Lexeme
import Mathlib.Data.List.Forall2

/-!
Names read back from their texts. A name is made of pieces between dots and may have an alias, parted
from it by the leftmost separator; the text it is written as has these pieces in quotes, and nothing of
them outside.
-/

namespace SqliteAccess.Sql

namespace Identifier

open Text (isBlank)

def Separates (s : List Char) : Prop :=
  ∃ before a b after, s = before ++ a :: b :: after ∧ before ≠ [] ∧ after ≠ [] ∧
    (∀ c ∈ before ++ after, isBlank c = true) ∧ isLetterA a = true ∧ isLetterS b = true

def Unparted (s : List Char) : Prop :=
  ∀ before sep after, s = before ++ sep ++ after → ¬ Separates sep

/-- The texts before and after the leftmost separator, which takes all blanks that it can. -/
structure Parted (s name short : List Char) : Prop where
  around : ∃ sep, s = name ++ sep ++ short ∧ Separates sep
  leftmost : ∀ before sep after, s = before ++ sep ++ after → Separates sep →
    name.length ≤ before.length
  whole : ∀ c ∈ short.head?, isBlank c = false

/-- The pieces of a name, and its alias. -/
structure Parts where
  pieces : List (List Char)
  short : Option (List Char) := none
deriving DecidableEq, Repr

namespace Parts

inductive Of (s : List Char) : Parts → Prop
  | plain : Unparted s → Of s ⟨s.splitOn '.', none⟩
  | aliased {name short : List Char} : Parted s name short → Of s ⟨name.splitOn '.', some short⟩

def of (s : List Char) : Parts :=
  match splitAlias? s with
  | none => ⟨s.splitOn '.', none⟩
  | some (name, short) => ⟨name.splitOn '.', some short⟩

def pieceLexeme (f : Flavour) (p : List Char) : Lexeme :=
  if f = .sqlite ∧ p = ['*'] then .bare '*' else .name p

/-- Outside of quotes there are only the dots, the word before the alias, and the bare star. -/
def lexemes (f : Flavour) (n : Parts) : List Lexeme :=
  List.intercalate [.bare '.'] (n.pieces.map fun p => [pieceLexeme f p]) ++
    match n.short with
    | none => []
    | some short => Lexeme.bares " as " ++ [pieceLexeme f short]

end Parts

theorem isBlank_of_isLetterA {c : Char} (h : isLetterA c = true) : isBlank c = false := by
  have hc : c = 'a' ∨ c = 'A' := by simpa [isLetterA] using h
  rcases hc with rfl | rfl <;> rfl

theorem dropWhile_blanks {bs : List Char} (hb : ∀ c ∈ bs, isBlank c = true) (r : List Char) :
    (bs ++ r).dropWhile isBlank = r.dropWhile isBlank := List.dropWhile_append_of_pos hb

theorem dropWhile_of_head? {r : List Char} (hr : ∀ c ∈ r.head?, isBlank c = false) :
    r.dropWhile isBlank = r := by
  cases r with
  | nil => rfl
  | cons c r => simp [hr c rfl]

theorem head?_dropWhile (s : List Char) : ∀ c ∈ (s.dropWhile isBlank).head?, isBlank c = false := by
  intro c hc
  have hn := List.head?_dropWhile_not isBlank s
  rw [Option.mem_def.mp hc] at hn
  exact hn

theorem mem_takeWhile {s : List Char} {c : Char} (h : c ∈ s.takeWhile isBlank) : isBlank c = true := by
  have ha := List.all_takeWhile (p := isBlank) (l := s)
  exact List.all_eq_true.mp ha c h

theorem separates_of_afterSeparator? {s short : List Char} (h : afterSeparator? s = some short) :
    (∃ sep, s = sep ++ short ∧ Separates sep) ∧ ∀ c ∈ short.head?, isBlank c = false := by
  unfold afterSeparator? at h
  split at h
  · cases h
  next c r =>
    split at h
    next hc =>
      split at h
      next a b d rest hd =>
        split at h
        next habd =>
          simp only [Bool.and_eq_true] at habd
          obtain ⟨⟨ha, hb⟩, hdb⟩ := habd
          cases h
          have hr : r = r.takeWhile isBlank ++ a :: b :: d :: rest := by
            rw [← hd, List.takeWhile_append_dropWhile]
          have hrest := List.takeWhile_append_dropWhile (p := isBlank) (l := rest)
          refine ⟨⟨c :: r.takeWhile isBlank ++ a :: b :: d :: rest.takeWhile isBlank, ?_,
            c :: r.takeWhile isBlank, a, b, d :: rest.takeWhile isBlank, rfl, by simp, by simp, ?_, ha, hb⟩,
            head?_dropWhile rest⟩
          · calc
              c :: r = c :: (r.takeWhile isBlank ++ a :: b :: d :: rest) := congrArg _ hr
              _ = _ := by simp [hrest]
          · intro x hx
            simp only [List.cons_append, List.mem_cons, List.mem_append] at hx
            rcases hx with rfl | hx | rfl | hx
            · exact hc
            · exact mem_takeWhile hx
            · exact hdb
            · exact mem_takeWhile hx
        next => cases h
      next => cases h
    next => cases h

theorem Separates.afterSeparator?_eq {sep : List Char} (h : Separates sep) (after : List Char) :
    afterSeparator? (sep ++ after) = some (after.dropWhile isBlank) := by
  obtain ⟨bs, a, b, bs', rfl, hne, hne', hblank, ha, hb⟩ := h
  obtain ⟨c, bs, rfl⟩ := List.exists_cons_of_ne_nil hne
  obtain ⟨d, bs', rfl⟩ := List.exists_cons_of_ne_nil hne'
  have hc : isBlank c = true := hblank c (by simp)
  have hd : isBlank d = true := hblank d (by simp)
  have hdrop : (bs ++ a :: b :: d :: (bs' ++ after)).dropWhile isBlank =
      a :: b :: d :: (bs' ++ after) := by
    rw [dropWhile_blanks fun x hx => hblank x (by simp [hx])]
    simp [isBlank_of_isLetterA ha]
  have hafter : (bs' ++ after).dropWhile isBlank = after.dropWhile isBlank :=
    dropWhile_blanks (fun x hx => hblank x (by simp [hx])) after
  simp [afterSeparator?, hc, hdrop, ha, hb, hd, hafter]

theorem not_separates_of_afterSeparator? {s : List Char} (h : afterSeparator? s = none)
    (sep after : List Char) (hs : s = sep ++ after) : ¬ Separates sep := by
  intro hsep
  rw [hs, hsep.afterSeparator?_eq] at h
  cases h

theorem splitAlias?_cons (c : Char) (r : List Char) :
    splitAlias? (c :: r) =
      (afterSeparator? (c :: r)).elim ((splitAlias? r).map fun p => (c :: p.1, p.2)) fun rest => some ([], rest) := by
  conv => lhs; unfold splitAlias?
  cases afterSeparator? (c :: r) <;> rfl

theorem parted_of_splitAlias? {s name short : List Char} (h : splitAlias? s = some (name, short)) :
    Parted s name short := by
  induction s generalizing name with
  | nil => cases h
  | cons c r ih =>
    rw [splitAlias?_cons] at h
    cases ha : afterSeparator? (c :: r) with
    | some rest =>
      simp only [ha, Option.elim_some, Option.some.injEq, Prod.mk.injEq] at h
      obtain ⟨rfl, rfl⟩ := h
      obtain ⟨⟨sep, hs, hsep⟩, hw⟩ := separates_of_afterSeparator? ha
      exact ⟨⟨sep, by simpa using hs, hsep⟩, fun _ _ _ _ _ => Nat.zero_le _, hw⟩
    | none =>
      simp only [ha, Option.elim_none, Option.map_eq_some_iff, Prod.mk.injEq] at h
      obtain ⟨⟨name', short'⟩, hr, rfl, rfl⟩ := h
      obtain ⟨⟨sep, hs, hsep⟩, hleft, hw⟩ := ih hr
      refine ⟨⟨sep, by simp [hs], hsep⟩, fun before sep' after he hsep' => ?_, hw⟩
      cases before with
      | nil => exact absurd hsep' (not_separates_of_afterSeparator? ha sep' after (by simpa using he))
      | cons d before =>
        simp only [List.cons_append, List.cons.injEq] at he
        obtain ⟨rfl, he⟩ := he
        exact Nat.succ_le_succ (hleft before sep' after (by simpa using he) hsep')

theorem unparted_of_splitAlias? {s : List Char} (h : splitAlias? s = none) : Unparted s := by
  induction s with
  | nil =>
    rintro before sep after he ⟨bs, a, b, bs', rfl, -⟩
    simp at he
  | cons c r ih =>
    rw [splitAlias?_cons] at h
    cases ha : afterSeparator? (c :: r) with
    | some rest => simp [ha] at h
    | none =>
      simp only [ha, Option.elim_none, Option.map_eq_none_iff] at h
      intro before sep after he
      cases before with
      | nil => exact not_separates_of_afterSeparator? ha sep after (by simpa using he)
      | cons d before =>
        simp only [List.cons_append, List.cons.injEq] at he
        obtain ⟨rfl, he⟩ := he
        exact ih h before sep after (by simpa using he)

theorem Parted.unparted {s name short : List Char} (h : Parted s name short) : Unparted name := by
  rintro before sep after rfl hsep
  obtain ⟨⟨sep', rfl, _⟩, hleft, _⟩ := h
  have hle := hleft before sep (after ++ sep' ++ short) (by simp) hsep
  obtain ⟨bs, a, b, bs', rfl, -⟩ := hsep
  simp only [List.length_append, List.length_cons] at hle
  omega

theorem Unparted.splitAlias?_eq {s : List Char} (h : Unparted s) : splitAlias? s = none := by
  cases hs : splitAlias? s with
  | none => rfl
  | some x =>
    obtain ⟨sep, he, hsep⟩ := (parted_of_splitAlias? hs).around
    exact absurd hsep (h _ sep _ he)

theorem Parted.splitAlias?_eq {s name short : List Char} (h : Parted s name short) :
    splitAlias? s = some (name, short) := by
  obtain ⟨sep, he, hsep⟩ := h.around
  cases hs : splitAlias? s with
  | none => exact absurd hsep (unparted_of_splitAlias? hs _ sep _ he)
  | some x =>
    obtain ⟨name', short'⟩ := x
    have h' := parted_of_splitAlias? hs
    obtain ⟨sep', he', hsep'⟩ := h'.around
    have hlen : name'.length = name.length :=
      Nat.le_antisymm (h'.leftmost _ _ _ he hsep) (h.leftmost _ _ _ he' hsep')
    rw [he, List.append_assoc, List.append_assoc] at he'
    obtain ⟨rfl, hrest⟩ := List.append_inj he' hlen.symm
    have hshort := hsep.afterSeparator?_eq short
    rw [hrest, hsep'.afterSeparator?_eq, dropWhile_of_head? h.whole, dropWhile_of_head? h'.whole] at hshort
    cases hshort
    rfl

theorem pieces_eq (s : List Char) : pieces s = s.splitOn '.' := by
  rw [List.splitOn_eq_splitOnP]
  induction s with
  | nil => rfl
  | cons c r ih =>
    rw [pieces, ih, List.splitOnP_cons_eq_if_modifyHead]
    by_cases hc : c = '.'
    · simp [hc]
    · cases hs : List.splitOnP (· == '.') r with
      | nil => exact absurd hs (List.splitOnP_ne_nil _ _)
      | cons p ps => simp [hc]

theorem scans_piece (f : Flavour) (p : List Char) : Scans (piece f p) [Parts.pieceLexeme f p] := by
  unfold piece Parts.pieceLexeme
  split
  next h =>
    rw [h.2]
    exact Scans.bare (by decide)
  next => exact Scans.quotedWith rfl p

theorem scans_qualified (f : Flavour) (s : List Char) :
    Scans (qualified f s)
      (List.intercalate [.bare '.'] ((s.splitOn '.').map fun p => [Parts.pieceLexeme f p])) := by
  rw [qualified, pieces_eq]
  exact Scans.intercalate _ _ (by decide) nofun fun p _ => scans_piece f p

theorem scans_chars (f : Flavour) (s : List Char) : Scans (chars f s) ((Parts.of s).lexemes f) := by
  unfold chars Parts.of
  cases splitAlias? s with
  | none =>
    have h := scans_qualified f s
    simpa [Parts.lexemes] using h
  | some x =>
    obtain ⟨name, short⟩ := x
    have has := Scans.bare_append (b := [' ', 'a', 's', ' ']) (by decide) (scans_piece f short)
    have h := (scans_qualified f name).append has (apart_cons rfl _)
    simpa [Parts.lexemes, Lexeme.bares] using h

theorem Parts.of_iff {s : List Char} {n : Parts} : Parts.Of s n ↔ n = Parts.of s := by
  constructor
  · rintro (h | h)
    · simp [of, h.splitAlias?_eq]
    · simp [of, h.splitAlias?_eq]
  · rintro rfl
    unfold of
    cases h : splitAlias? s with
    | none => exact .plain (unparted_of_splitAlias? h)
    | some x => exact .aliased (parted_of_splitAlias? h)

end Identifier

open Identifier (Parts)

theorem scans_wrap (f : Flavour) (s : String) :
    Scans (wrap f s).toList ((Parts.of s.toList).lexemes f) := by
  rw [wrap, String.toList_ofList]
  exact Identifier.scans_chars f s.toList

theorem scans_columnize (f : Flavour) (names : List String) :
    Scans (columnize f names).toList
      (List.intercalate (Lexeme.bares ", ") (names.map fun s => (Parts.of s.toList).lexemes f)) := by
  have h := Scans.intercalate ", ".toList names (by decide) (by decide) fun s _ => scans_wrap f s
  simpa [columnize, String.toList_intercalate, Function.comp_def, Lexeme.bares] using h

namespace Lexeme

def strip : List Char → List Lexeme → Option (List Lexeme)
  | [], ts => some ts
  | c :: s, bare d :: ts => if c = d then strip s ts else none
  | _ :: _, _ => none

theorem strip_append (s : List Char) (ts : List Lexeme) : strip s (s.map bare ++ ts) = some ts := by
  induction s with
  | nil => rfl
  | cons c s ih => simp [strip, ih]

def after? (s : String) (ts : List Lexeme) : Option (List Lexeme) := strip s.toList ts

@[simp] theorem after?_bares (s : String) (ts : List Lexeme) : after? s (bares s ++ ts) = some ts :=
  strip_append s.toList ts

def piece? : Lexeme → Option (List Char)
  | name s => some s
  | bare c => if c = '*' then some ['*'] else none
  | literal _ => none

@[simp] theorem piece?_pieceLexeme (f : Flavour) (p : List Char) :
    piece? (Parts.pieceLexeme f p) = some p := by
  unfold Parts.pieceLexeme
  split
  next h => simp [piece?, h.2]
  next => rfl

def readPieces : List Lexeme → Option (List (List Char) × List Lexeme)
  | [] => none
  | [x] => (piece? x).map fun p => ([p], [])
  | x :: y :: r =>
    if y = bare '.' then do
      let p ← piece? x
      let (ps, rest) ← readPieces r
      return (p :: ps, rest)
    else (piece? x).map fun p => ([p], y :: r)

/-- The name that a text begins with, and what follows it. -/
def readName (ts : List Lexeme) : Option (Parts × List Lexeme) := do
  let (ps, r) ← readPieces ts
  match after? " as " r with
  | none => return (⟨ps, none⟩, r)
  | some [] => none
  | some (x :: r) => (piece? x).map fun p => (⟨ps, some p⟩, r)

theorem readPieces_append (f : Flavour) {ps : List (List Char)} (hps : ps ≠ []) {rest : List Lexeme}
    (hr : rest.head? ≠ some (bare '.')) :
    readPieces (List.intercalate [bare '.'] (ps.map fun p => [Parts.pieceLexeme f p]) ++ rest) =
      some (ps, rest) := by
  induction ps with
  | nil => exact absurd rfl hps
  | cons p ps ih =>
    cases ps with
    | nil =>
      cases rest with
      | nil => simp [readPieces]
      | cons y rest =>
        have hy : y ≠ bare '.' := by simpa using hr
        simp [readPieces, hy]
    | cons q ps =>
      have hq := ih (List.cons_ne_nil q ps)
      rw [List.map_cons] at hq
      rw [List.map_cons, List.map_cons, List.intercalate_cons_cons]
      simp only [List.cons_append, List.nil_append, readPieces, if_true, hq, piece?_pieceLexeme]
      rfl

def Ends (rest : List Lexeme) : Prop :=
  rest.head? ≠ some (bare '.') ∧ after? " as " rest = none

theorem ends_nil : Ends [] := ⟨nofun, rfl⟩

theorem readName_append (f : Flavour) (s : List Char) {rest : List Lexeme} (hr : Ends rest) :
    readName ((Parts.of s).lexemes f ++ rest) = some (Parts.of s, rest) := by
  unfold Parts.of Parts.lexemes
  cases Identifier.splitAlias? s with
  | none =>
    dsimp only
    rw [List.append_nil, readName, readPieces_append f (List.splitOn_ne_nil _ _) hr.1]
    simp only [Option.bind_eq_bind, Option.bind_some, hr.2]
    rfl
  | some x =>
    obtain ⟨name, short⟩ := x
    dsimp only
    rw [List.append_assoc, readName, readPieces_append f (List.splitOn_ne_nil _ _) (by simp [bares])]
    simp only [Option.bind_eq_bind, Option.bind_some, List.append_assoc, List.singleton_append,
      after?_bares, piece?_pieceLexeme]
    rfl

def readWhole (ts : List Lexeme) : Option Parts := do
  let (n, rest) ← readName (ts.dropWhile (· = bare ' '))
  if rest = [] then some n else none

/-- The names between the commas that stand outside of quotes. -/
def readNames (ts : List Lexeme) : Option (List Parts) :=
  if ts = [] then some [] else (ts.splitOn (bare ',')).mapM readWhole

theorem bare_of_mem_lexemes {f : Flavour} {n : Parts} {c : Char} (h : bare c ∈ n.lexemes f) :
    c ∈ ['*', '.', ' ', 'a', 's'] := by
  have piece : ∀ p, bare c = Parts.pieceLexeme f p → c ∈ ['*', '.', ' ', 'a', 's'] := by
    intro p hp
    unfold Parts.pieceLexeme at hp
    split at hp <;> cases hp
    simp
  suffices ∀ t ∈ n.lexemes f, t = bare c → c ∈ ['*', '.', ' ', 'a', 's'] from this _ h rfl
  intro t ht
  rw [Parts.lexemes, List.mem_append] at ht
  rcases ht with ht | ht
  · refine forall_mem_intercalate (P := fun t => t = bare c → c ∈ ['*', '.', ' ', 'a', 's']) ?_ ?_ t ht
    · rintro t ht rfl
      cases List.mem_singleton.mp ht
      simp
    · intro x hx t ht he
      obtain ⟨p, _, rfl⟩ := List.mem_map.mp hx
      exact piece p (he ▸ List.mem_singleton.mp ht)
  · rintro rfl
    cases hs : n.short with
    | none => simp [hs] at ht
    | some short =>
      simp only [hs, bares, List.mem_append, List.mem_singleton] at ht
      rcases ht with ht | ht
      · obtain ⟨d, hd, he⟩ := List.mem_map.mp ht
        cases he
        have hd : c = ' ' ∨ c = 'a' ∨ c = 's' ∨ c = ' ' := by simpa using hd
        rcases hd with rfl | rfl | rfl | rfl <;> simp
      · exact piece short ht

theorem lexemes_eq_cons (f : Flavour) (s : List Char) :
    ∃ p r, (Parts.of s).lexemes f = Parts.pieceLexeme f p :: r := by
  have pieces : ∀ t : List Char, ∃ p r,
      List.intercalate [bare '.'] ((t.splitOn '.').map fun p => [Parts.pieceLexeme f p]) =
        Parts.pieceLexeme f p :: r := by
    intro t
    obtain ⟨p, ps, hp⟩ := List.exists_cons_of_ne_nil (List.splitOn_ne_nil '.' t)
    rw [hp]
    cases ps with
    | nil => exact ⟨p, [], rfl⟩
    | cons q ps =>
      simp only [List.map_cons, List.intercalate_cons_cons]
      exact ⟨p, _, rfl⟩
  unfold Parts.of Parts.lexemes
  cases Identifier.splitAlias? s with
  | none =>
    obtain ⟨p, r, h⟩ := pieces s
    exact ⟨p, r ++ [], by rw [h]; rfl⟩
  | some x =>
    obtain ⟨p, r, h⟩ := pieces x.1
    dsimp only
    rw [h]
    exact ⟨p, _, rfl⟩

theorem pieceLexeme_ne {f : Flavour} {c : Char} (hc : c ≠ '*') (p : List Char) :
    Parts.pieceLexeme f p ≠ bare c := by
  unfold Parts.pieceLexeme
  split
  · simpa using hc.symm
  · nofun

theorem dropWhile_lexemes (f : Flavour) (s : List Char) :
    ((Parts.of s).lexemes f).dropWhile (· = bare ' ') = (Parts.of s).lexemes f := by
  obtain ⟨p, r, h⟩ := lexemes_eq_cons f s
  have hp : Parts.pieceLexeme f p ≠ bare ' ' := pieceLexeme_ne (by decide) p
  simp [h, hp]

theorem readWhole_lexemes (f : Flavour) (s : List Char) :
    readWhole ((Parts.of s).lexemes f) = some (Parts.of s) := by
  have h := readName_append f s ends_nil
  rw [List.append_nil] at h
  simp [readWhole, dropWhile_lexemes, h]

theorem intercalate_comma (x : List Lexeme) (xs : List (List Lexeme)) :
    List.intercalate (bares ", ") (x :: xs) =
      List.intercalate [bare ','] (x :: xs.map (bare ' ' :: ·)) := by
  induction xs generalizing x with
  | nil => rfl
  | cons y ys ih =>
    simp only [List.map_cons, List.intercalate_cons_cons] at ih ⊢
    rw [ih y]
    cases ys with
    | nil => simp [bares]
    | cons z zs => simp [List.intercalate_cons_cons, bares]

theorem readNames_intercalate (f : Flavour) (names : List String) :
    readNames (List.intercalate (bares ", ") (names.map fun s => (Parts.of s.toList).lexemes f)) =
      some (names.map fun s => Parts.of s.toList) := by
  cases names with
  | nil => rfl
  | cons s names =>
    have hne : ∀ s : String, bare ',' ∉ (Parts.of s.toList).lexemes f := fun s hc =>
      absurd (bare_of_mem_lexemes hc) (by decide)
    have hcomma : ∀ x ∈ (Parts.of s.toList).lexemes f ::
        (names.map fun s => (Parts.of s.toList).lexemes f).map (bare ' ' :: ·), bare ',' ∉ x := by
      simpa using ⟨hne s, fun s _ => hne s⟩
    obtain ⟨p, r, hp⟩ := lexemes_eq_cons f s.toList
    have hnil : List.intercalate [bare ','] ((Parts.of s.toList).lexemes f ::
        (names.map fun s => (Parts.of s.toList).lexemes f).map (bare ' ' :: ·)) ≠ [] := by
      rw [hp]
      cases names <;> simp [List.intercalate_cons_cons]
    have hwhole : ∀ s : String, readWhole (bare ' ' :: (Parts.of s.toList).lexemes f) =
        some (Parts.of s.toList) := fun s => readWhole_lexemes f s.toList
    have hrest : ((names.map fun s => (Parts.of s.toList).lexemes f).map (bare ' ' :: ·)).mapM
        readWhole = some (names.map fun s => Parts.of s.toList) := by
      rw [List.map_map]
      exact mapM_map_eq_some fun s _ => hwhole s
    rw [List.map_cons, intercalate_comma, readNames, if_neg hnil,
      List.splitOn_intercalate _ hcomma (List.cons_ne_nil _ _), List.mapM_cons, readWhole_lexemes, hrest]
    rfl

end Lexeme

/-- Every name reads back from its text as its pieces and its alias. The part before the alias is
written like a name of its own, and has no alias. A list of names reads back name by name. -/
theorem names_read_back (f : Flavour) :
    (∀ s : String, ∃ n, (∀ m, Parts.Of s.toList m ↔ m = n) ∧
      lexemes? (wrap f s) = some (n.lexemes f) ∧
      (lexemes? (wrap f s)).bind Lexeme.readName = some (n, []) ∧
      ∀ name short, Identifier.Parted s.toList name short → Identifier.Unparted name ∧
        wrap f s = wrap f (String.ofList name) ++ " as " ++ wrapPiece f (String.ofList short)) ∧
    ∀ names : List String, ∃ ns, List.Forall₂ (fun s n => Parts.Of s.toList n) names ns ∧
      (lexemes? (columnize f names)).bind Lexeme.readNames = some ns := by
  refine ⟨fun s => ⟨Parts.of s.toList, fun m => Identifier.Parts.of_iff, ?_, ?_, ?_⟩, fun names => ?_⟩
  · exact (scans_wrap f s).scan_eq
  · have h := Lexeme.readName_append f s.toList Lexeme.ends_nil
    rw [List.append_nil] at h
    rw [lexemes?, (scans_wrap f s).scan_eq]
    exact h
  · intro name short h
    refine ⟨h.unparted, String.toList_injective ?_⟩
    simp [wrap, wrapPiece, Identifier.chars, h.splitAlias?_eq, h.unparted.splitAlias?_eq]
  · refine ⟨names.map fun s => Parts.of s.toList, ?_, ?_⟩
    · rw [List.forall₂_map_right_iff]
      exact List.forall₂_same.mpr fun s _ => Identifier.Parts.of_iff.mpr rfl
    · rw [lexemes?, (scans_columnize f names).scan_eq]
      exact Lexeme.readNames_intercalate f names

theorem names_read_back_aliased :
    Identifier.Parted "users.name AS label".toList "users.name".toList "label".toList ∧
      wrap .sqlite "users.name AS label" =
        wrap .sqlite "users.name" ++ " as " ++ wrapPiece .sqlite "label" := by
  have h : Identifier.Parted "users.name AS label".toList "users.name".toList "label".toList :=
    Identifier.parted_of_splitAlias? (by decide)
  obtain ⟨n, -, -, -, hw⟩ := (names_read_back .sqlite).1 "users.name AS label"
  exact ⟨h, by simpa using (hw _ _ h).2⟩

end SqliteAccess.Sql
