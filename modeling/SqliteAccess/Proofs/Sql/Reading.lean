import SqliteAccess.Sql.Statement
import Mathlib.Data.List.Flatten

/-!
The tokens of a statement's text. What stands in quotes is one name and yields no token, so a
statement's shape can be read off whatever its table and its columns are called.
-/

namespace SqliteAccess.Sql

inductive Token where
  | param
  | opening
  | closing
  | word (w : String)
deriving DecidableEq, Repr

namespace Token

def ofWord (w : List Char) : List Token := if w = [] then [] else [word (String.ofList w)]

def ofSign : Char → List Token
  | '?' => [param]
  | '(' => [opening]
  | ')' => [closing]
  | _ => []

end Token

def lex (inside : Bool) (w : List Char) : List Char → List Token
  | [] => Token.ofWord w
  | c :: r =>
    if c = '"' then Token.ofWord w ++ lex (!inside) [] r
    else if inside then lex true [] r
    else if c.isAlpha then lex false (w ++ [c]) r
    else Token.ofWord w ++ Token.ofSign c ++ lex false [] r

theorem intercalate_nil {α β : Type} (g : α → List β) (xs : List α) :
    List.intercalate [] (xs.map g) = xs.flatMap g := by
  induction xs with
  | nil => rfl
  | cons x xs ih =>
    cases xs with
    | nil => simp
    | cons y ys =>
      simp only [List.map_cons, List.intercalate_cons_cons, List.flatMap_cons] at ih ⊢
      rw [ih, List.append_nil]

def Reads (s : List Char) (ts : List Token) : Prop :=
  ∀ rest, lex false [] (s ++ rest) = ts ++ lex false [] rest

namespace Reads

theorem nil : Reads [] [] := fun _ => rfl

theorem append {s s' : List Char} {ts ts' : List Token} (h : Reads s ts) (h' : Reads s' ts') :
    Reads (s ++ s') (ts ++ ts') := by
  intro rest
  rw [List.append_assoc, h, h', List.append_assoc]

theorem lex_eq {s : List Char} {ts : List Token} (h : Reads s ts) : lex false [] s = ts := by
  have he := h []
  simpa [lex, Token.ofWord] using he

theorem intercalate {α : Type} {sep : List Char} {ts : List Token} {f : α → List Char}
    {g : α → List Token} (xs : List α) (hsep : Reads sep ts) (h : ∀ x ∈ xs, Reads (f x) (g x)) :
    Reads (List.intercalate sep (xs.map f)) (List.intercalate ts (xs.map g)) := by
  induction xs with
  | nil => exact nil
  | cons x xs ih =>
    have hx := h x (by simp)
    have hr := ih fun y hy => h y (List.mem_cons_of_mem _ hy)
    cases xs with
    | nil => simpa using hx
    | cons y ys => simpa [List.intercalate_cons_cons] using hx.append (hsep.append hr)

theorem separated {α : Type} {sep : List Char} {f : α → List Char} {g : α → List Token}
    (xs : List α) (hsep : Reads sep []) (h : ∀ x ∈ xs, Reads (f x) (g x)) :
    Reads (List.intercalate sep (xs.map f)) (xs.flatMap g) := by
  rw [← intercalate_nil]
  exact intercalate xs hsep h

end Reads

namespace Identifier

theorem lex_doubled (s rest : List Char) :
    lex true [] (doubled '"' s ++ '"' :: rest) = lex false [] rest := by
  induction s with
  | nil => simp [doubled, lex, Token.ofWord]
  | cons c s ih =>
    by_cases hc : c = '"'
    · simp [doubled, lex, Token.ofWord, hc, ih]
    · simp [doubled, lex, hc, ih]

theorem reads_quotedWith (s : List Char) : Reads (quotedWith '"' s) [] := by
  intro rest
  have h := lex_doubled s rest
  simpa [quotedWith, lex, Token.ofWord] using h

theorem reads_piece (f : Flavour) (s : List Char) : Reads (piece f s) [] := by
  unfold piece
  split
  next h =>
    rw [h.2]
    intro rest
    rfl
  · exact reads_quotedWith s

theorem reads_qualified (f : Flavour) (s : List Char) : Reads (qualified f s) [] := by
  have hpoint : Reads ['.'] [] := fun _ => rfl
  have hr := Reads.separated (pieces s) hpoint fun p _ => reads_piece f p
  have hs : (pieces s).flatMap (fun _ => ([] : List Token)) = [] := by simp
  rwa [hs] at hr

def tokens (s : List Char) : List Token := if (splitAlias? s).isSome then [.word "as"] else []

theorem reads_chars (f : Flavour) (s : List Char) : Reads (chars f s) (tokens s) := by
  unfold chars tokens
  cases splitAlias? s with
  | none => exact reads_qualified f s
  | some parts =>
    obtain ⟨name, short⟩ := parts
    have has : Reads [' ', 'a', 's', ' '] [.word "as"] := fun _ => rfl
    exact ((reads_qualified f name).append has).append (reads_piece f short)

end Identifier

theorem reads_comma : Reads ", ".toList [] := fun _ => rfl

theorem reads_wrap (f : Flavour) (s : String) :
    Reads (wrap f s).toList (Identifier.tokens s.toList) := by
  rw [wrap, String.toList_ofList]
  exact Identifier.reads_chars f s.toList

theorem reads_columnize (f : Flavour) (names : List String) :
    Reads (columnize f names).toList (names.flatMap fun s => Identifier.tokens s.toList) := by
  have hr := Reads.separated names reads_comma fun s _ => reads_wrap f s
  simpa [columnize, String.toList_intercalate, Function.comp_def] using hr

theorem reads_parameterize {α : Type} (values : List α) :
    Reads (parameterize values).toList (values.flatMap fun _ => [.param]) := by
  have hp : Reads placeholder.toList [.param] := fun _ => rfl
  have hr := Reads.separated values reads_comma fun _ _ => hp
  simpa [parameterize, commaSeparated, String.toList_intercalate, Function.comp_def] using hr

namespace Writer

theorem reads_selectTuple (w : Writer) (keys : List String) :
    Reads (w.selectTuple keys).toList
      (keys.flatMap fun k => .param :: .word "as" :: Identifier.tokens k.toList) := by
  have hp : Reads (placeholder ++ " as ").toList [.param, .word "as"] := fun _ => rfl
  have hr := Reads.separated keys reads_comma fun k _ => hp.append (reads_wrap w.flavour k)
  simpa [selectTuple, commaSeparated, wrap, String.toList_intercalate, Function.comp_def,
    List.append_assoc] using hr

end Writer

end SqliteAccess.Sql
