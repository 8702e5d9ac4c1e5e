import Mathlib.Data.List.Forall2
import SqliteAccess.Log.Record
import SqliteAccess.Log.Redaction

/-!
What masking hides. A text in which a sensitive word stands, in whatever letters, never comes through; and two
lists of bound values are shown alike if they are the same but for values that are both masked.
-/

namespace SqliteAccess.Log

open Text (Lowercase.chars Lowercase.char)

def Occurs (word text : String) : Prop :=
  ∃ before part after, text.toList = before ++ part ++ after ∧ part.map Char.toLower = word.toList

/-- A bound text with a sensitive word in it. -/
def Revealing (v : Value) : Prop := ∃ s w, v = .text s ∧ w ∈ sensitiveWords ∧ Occurs w s

/-- The bound values that a record carries. -/
def Record.params (r : Record) : List Value :=
  match r.details with
  | .none => []
  | .statement _ params => params
  | .timing _ params _ _ => params

def Record.Discreet (r : Record) : Prop := ∀ v ∈ r.params, ¬ Revealing v

theorem Record.Discreet.plain {r : Record} (h : r.details = .none) : r.Discreet := by
  rw [Record.Discreet, Record.params, h]
  exact fun _ hv => nomatch hv

theorem occursIn_iff (word text : List Char) : occursIn word text = true ↔ word <:+: text := by
  induction text with
  | nil => simp [occursIn]
  | cons c r ih => simp [occursIn, ih, List.infix_cons_iff]

theorem chars_append (before x y : List Char) :
    ∃ x', Lowercase.chars before (x ++ y) = x' ++ Lowercase.chars (x.reverse ++ before) y := by
  induction x generalizing before with
  | nil => exact ⟨[], rfl⟩
  | cons c x ih =>
    obtain ⟨x', hx⟩ := ih (c :: before)
    rw [List.reverse_cons, List.append_assoc, List.singleton_append, List.cons_append, Lowercase.chars, hx,
      ← List.append_assoc]
    exact ⟨_, rfl⟩

theorem chars_plain {x : List Char} (hx : ∀ c ∈ x, c.toNat < 128) (before y : List Char) :
    Lowercase.chars before (x ++ y) = x.map Char.toLower ++ Lowercase.chars (x.reverse ++ before) y := by
  induction x generalizing before with
  | nil => rfl
  | cons c x ih =>
    rw [List.forall_mem_cons] at hx
    have hc : c.toNat ≠ 0x3a3 := by omega
    rw [List.cons_append, Lowercase.chars, if_neg hc, Lowercase.char, if_pos hx.1, ih hx.2]
    simp

theorem toNat_lt_of_toLower {c : Char} (h : c.toLower.toNat < 128) : c.toNat < 128 := by
  delta Char.toLower at h
  split at h
  next hc =>
    have hle : c.toNat ≤ 90 := hc.2
    omega
  next => exact h

theorem sensitiveWords_plain : ∀ w ∈ sensitiveWords, ∀ c ∈ w.toList, c.toNat < 128 := by
  have h : sensitiveWords.all (fun w => w.toList.all fun c => c.toNat < 128) = true := by rfl
  intro w hw c hc
  simpa using List.all_eq_true.mp (List.all_eq_true.mp h w hw) c hc

theorem isSensitive_of_occurs {w s : String} (hw : w ∈ sensitiveWords) (h : Occurs w s) : isSensitive s = true := by
  obtain ⟨before, part, after, hs, hp⟩ := h
  have hplain : ∀ c ∈ part, c.toNat < 128 := by
    intro c hc
    refine toNat_lt_of_toLower (sensitiveWords_plain w hw _ ?_)
    rw [← hp]
    exact List.mem_map_of_mem hc
  obtain ⟨x, hx⟩ := chars_append [] before (part ++ after)
  rw [chars_plain hplain, hp] at hx
  refine List.any_eq_true.mpr ⟨w, hw, ?_⟩
  rw [occursIn_iff, Text.lowercase, String.toList_ofList, hs, List.append_assoc, hx]
  exact ⟨_, _, by rw [List.append_assoc]⟩

theorem isSensitive_mask : isSensitive mask = false := by decide +kernel

theorem not_revealing_redactValue (v : Value) : ¬ Revealing (redactValue v) := by
  rintro ⟨s, w, hv, hw, ho⟩
  have hs := isSensitive_of_occurs hw ho
  unfold redactValue at hv
  split at hv
  · split at hv
    · cases hv
      cases isSensitive_mask.symm.trans hs
    next hn =>
      cases hv
      exact hn hs
  next hn => exact hn s hv

theorem not_revealing_of_mem_redact {vs : List Value} {v : Value} (h : v ∈ redact vs) : ¬ Revealing v := by
  obtain ⟨u, _, rfl⟩ := List.mem_map.mp h
  exact not_revealing_redactValue u

theorem redactValue_redactValue (v : Value) : redactValue (redactValue v) = redactValue v := by
  cases v with
  | text s =>
    cases hs : isSensitive s with
    | true => simp [redactValue, hs, isSensitive_mask]
    | false => simp [redactValue, hs]
  | _ => rfl

@[simp] theorem redact_redact (vs : List Value) : redact (redact vs) = redact vs := by
  simp only [redact, List.map_map, Function.comp_def, redactValue_redactValue]

end SqliteAccess.Log
