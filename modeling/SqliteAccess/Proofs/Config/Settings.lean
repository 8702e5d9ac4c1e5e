import Mathlib.Data.List.Nodup
import SqliteAccess.Config.Duration
import SqliteAccess.Config.PoolSettings
import SqliteAccess.Proofs.Config.Numerals

/-!
Which pool settings are accepted, and what becomes of them. Settings are read one after the other and the sizes are
compared at the end; what comes out is said here by key, so that the order of the settings plays no part.
-/

namespace SqliteAccess.Keyed

variable {α : Type} {r : List (String × α)} {k : String} {v : α}

theorem put_of_notMem (h : k ∉ r.map Prod.fst) : put r k v = r ++ [(k, v)] := by
  induction r with
  | nil => rfl
  | cons p r ih =>
    rw [List.map_cons, List.mem_cons, not_or] at h
    rw [put, if_neg (Ne.symm h.1), ih h.2]
    rfl

theorem ofPairs_of_nodup (h : (r.map Prod.fst).Nodup) : ofPairs r = r := by
  have fold : ∀ (done : List (String × α)), ((done ++ r).map Prod.fst).Nodup →
      r.foldl (fun r p => put r p.1 p.2) done = done ++ r := by
    clear h
    induction r with
    | nil => exact fun done _ => (List.append_nil done).symm
    | cons p r ih =>
      intro done hd
      have hp : p.1 ∉ done.map Prod.fst := by
        rw [List.map_append, List.map_cons, List.nodup_append'] at hd
        exact fun hm => hd.2.2 hm List.mem_cons_self
      rw [List.foldl_cons, put_of_notMem hp, ih (done ++ [p]) (by simpa using hd), List.append_assoc]
      rfl
  exact fold [] h

theorem get?_cons (p : String × α) (r : List (String × α)) (k : String) :
    get? (p :: r) k = if p.1 = k then some p.2 else get? r k := by
  rw [get?, List.find?_cons]
  by_cases h : p.1 = k <;> simp [h, get?]

theorem get?_eq_none (h : k ∉ r.map Prod.fst) : get? r k = none := by
  induction r with
  | nil => rfl
  | cons p r ih =>
    rw [List.map_cons, List.mem_cons, not_or] at h
    rw [get?_cons, if_neg (Ne.symm h.1), ih h.2]

theorem mem_of_get? (h : get? r k = some v) : (k, v) ∈ r := by
  obtain ⟨p, hp, rfl⟩ := Option.map_eq_some_iff.mp h
  obtain rfl : p.1 = k := by simpa using List.find?_some hp
  exact List.mem_of_find?_eq_some hp

theorem get?_eq_some_iff (hd : (r.map Prod.fst).Nodup) : get? r k = some v ↔ (k, v) ∈ r := by
  refine ⟨mem_of_get?, fun h => ?_⟩
  induction r with
  | nil => cases h
  | cons p r ih =>
    rw [List.map_cons, List.nodup_cons] at hd
    rw [get?_cons]
    rcases List.mem_cons.mp h with rfl | h
    · exact if_pos rfl
    · rw [if_neg, ih hd.2 h]
      rintro rfl
      exact hd.1 (List.mem_map.mpr ⟨_, h, rfl⟩)

theorem get?_perm {r' : List (String × α)} (hd : (r.map Prod.fst).Nodup) (hp : r'.Perm r) : get? r' k = get? r k := by
  have hd' : (r'.map Prod.fst).Nodup := (hp.map Prod.fst).nodup_iff.mpr hd
  refine Option.ext fun v => ?_
  rw [get?_eq_some_iff hd, get?_eq_some_iff hd', hp.mem_iff]

end SqliteAccess.Keyed

namespace SqliteAccess.Config

def SettingKind.ofKey (k : String) : SettingKind :=
  if k = "enabled" then .boolean
  else if "_connections".toList.isSuffixOf k.toList then .integer
  else .float

def kept? (k : String) (v : Value) : Option Value :=
  match v with
  | .text t => readKind? (SettingKind.ofKey k) t
  | v => some v

def Draft.get (d : Draft) : Setting → Value
  | .maxConnections => d.maxConnections
  | .minConnections => d.minConnections
  | .idleTimeoutMs => d.idleTimeoutMs
  | .acquireTimeoutMs => d.acquireTimeoutMs
  | .reapIntervalMs => d.reapIntervalMs
  | .enabled => d.enabled

def PoolSettings.get (c : PoolSettings) : Setting → Value
  | .maxConnections => .ofNumber c.maxConnections
  | .minConnections => .ofNumber c.minConnections
  | .idleTimeoutMs => c.idleTimeoutMs
  | .acquireTimeoutMs => c.acquireTimeoutMs
  | .reapIntervalMs => c.reapIntervalMs
  | .enabled => c.enabled

/-- A setting where it is given, and its default elsewhere. -/
def chosen (r : List (String × Value)) (s : Setting) : Value :=
  ((Keyed.get? r s.key).bind (kept? s.key)).getD (({} : Draft).get s)

/-- Every key is known, and every text can be read. -/
def Readable (r : List (String × Value)) : Prop :=
  ∀ p ∈ r, p.1 ∈ Setting.all.map Setting.key ∧ (kept? p.1 p.2).isSome

def whole? : Value → Option Int
  | .int n => some n
  | .bool b => some (if b then 1 else 0)
  | _ => none

/-- There is room for a connection, and the minimum is a count that fits the maximum. -/
def SizesFit (most least : Value) : Prop :=
  ∃ n k : Int, whole? most = some n ∧ whole? least = some k ∧ 1 ≤ n ∧ 0 ≤ k ∧ k ≤ n

def Sizing (k : String) : Prop := k = Setting.maxConnections.key ∨ k = Setting.minConnections.key

/-- The sizes are given as whole numbers or as texts, if at all. -/
def WholeOrText (r : List (String × Value)) : Prop :=
  ∀ p ∈ r, Sizing p.1 → (whole? p.2).isSome ∨ ∃ t, p.2 = .text t

variable {r r' : List (String × Value)} {d d' : Draft} {c : PoolSettings} {e : Failure}

namespace Setting

theorem kind_eq (s : Setting) : s.kind = SettingKind.ofKey s.key := by cases s <;> decide

theorem ofKey?_eq_some {k : String} {s : Setting} (h : ofKey? k = some s) : k = s.key := by
  have := List.find?_some h
  exact (of_decide_eq_true this).symm

theorem ofKey?_key (s : Setting) : ofKey? s.key = some s := by cases s <;> decide

theorem key_injective {s s' : Setting} (h : s.key = s'.key) : s = s' :=
  Option.some.inj ((ofKey?_key s).symm.trans (h ▸ ofKey?_key s'))

theorem mem_keys_iff {k : String} : k ∈ all.map key ↔ ∃ s, ofKey? k = some s := by
  constructor
  · intro h
    obtain ⟨s, _, rfl⟩ := List.mem_map.mp h
    exact ⟨s, ofKey?_key s⟩
  · rintro ⟨s, h⟩
    rw [ofKey?_eq_some h]
    exact List.mem_map_of_mem (by cases s <;> decide)

theorem read_eq (s : Setting) (v : Value) :
    (∃ w, s.read v = .ok w ∧ kept? s.key v = some w) ∨
      (∃ e, s.read v = .error e ∧ e.isConfiguration = true) ∧ kept? s.key v = none := by
  cases v with
  | text t =>
    simp only [read, kept?, ← kind_eq]
    cases readKind? s.kind t with
    | some w => exact .inl ⟨w, rfl, rfl⟩
    | none => exact .inr ⟨⟨_, rfl, rfl⟩, rfl⟩
  | _ => exact .inl ⟨_, rfl, rfl⟩

end Setting

theorem Draft.get_set (d : Draft) (s s' : Setting) (v : Value) :
    (d.set s v).get s' = if s' = s then v else d.get s' := by
  cases s <;> cases s' <;> rfl

theorem Readable.perm (h : Readable r) (hp : r'.Perm r) : Readable r' := fun p hm => h p (hp.mem_iff.mp hm)

theorem WholeOrText.perm (h : WholeOrText r) (hp : r'.Perm r) : WholeOrText r' := fun p hm => h p (hp.mem_iff.mp hm)

theorem chosen_perm (hd : (r.map Prod.fst).Nodup) (hp : r'.Perm r) (s : Setting) : chosen r' s = chosen r s := by
  rw [chosen, Keyed.get?_perm hd hp, chosen]

theorem readSettings_spec (hd : (r.map Prod.fst).Nodup) (d : Draft) :
    (Readable r ∧ ∃ d', readSettings r d = .ok d' ∧
      ∀ s, d'.get s = ((Keyed.get? r s.key).bind (kept? s.key)).getD (d.get s)) ∨
    ¬ Readable r ∧ ∃ e, readSettings r d = .error e ∧ e.isConfiguration = true := by
  induction r generalizing d with
  | nil => exact .inl ⟨fun _ hp => (nomatch hp), d, rfl, fun _ => rfl⟩
  | cons p r ih =>
    obtain ⟨k, v⟩ := p
    rw [List.map_cons, List.nodup_cons] at hd
    cases hk : Setting.ofKey? k with
    | none =>
      refine .inr ⟨fun h => ?_, .unknownSetting k, by rw [readSettings, hk], rfl⟩
      obtain ⟨s, hs⟩ := Setting.mem_keys_iff.mp (h _ List.mem_cons_self).1
      cases hk.symm.trans hs
    | some s =>
      obtain rfl := Setting.ofKey?_eq_some hk
      rcases s.read_eq v with ⟨w, hw, hkept⟩ | ⟨⟨e, he, hconf⟩, hkept⟩
      · have hread : readSettings ((s.key, v) :: r) d = readSettings r (d.set s w) := by
          rw [readSettings, hk]
          simp only [hw]
          rfl
        rw [hread]
        rcases ih hd.2 (d.set s w) with ⟨hr, d', hd', hget⟩ | ⟨hr, herr⟩
        · refine .inl ⟨fun p hp => ?_, d', hd', fun s' => ?_⟩
          · rcases List.mem_cons.mp hp with rfl | hp
            · exact ⟨Setting.mem_keys_iff.mpr ⟨s, hk⟩, by rw [hkept]; rfl⟩
            · exact hr p hp
          · rw [hget s', Draft.get_set, Keyed.get?_cons]
            by_cases hs : s' = s
            · subst hs
              rw [Keyed.get?_eq_none hd.1, if_pos rfl, if_pos rfl]
              simp only [Option.bind_some, hkept]
              rfl
            · rw [if_neg hs, if_neg fun h => hs (Setting.key_injective h).symm]
        · exact .inr ⟨fun h => hr fun p hp => h p (List.mem_cons_of_mem _ hp), herr⟩
      · refine .inr ⟨fun h => ?_, e, ?_, hconf⟩
        · have := (h _ List.mem_cons_self).2
          rw [hkept] at this
          cases this
        · rw [readSettings, hk]
          simp only [he]
          rfl

theorem number?_of_whole? {v : Value} {n : Int} (h : whole? v = some n) :
    ∃ a : Number, v.number? = some a ∧ a.isInteger = true ∧ a.toInt = n ∧ Value.ofNumber a = v := by
  cases v with
  | int m => exact ⟨.int m, rfl, rfl, Option.some.inj h, rfl⟩
  | bool b => exact ⟨.bool b, rfl, rfl, Option.some.inj h, rfl⟩
  | _ => cases h

theorem lt_of_isInteger {a b : Number} (ha : a.isInteger = true) (hb : b.isInteger = true) :
    a.lt b = decide (a.toInt < b.toInt) := by
  have fraction : ∀ {a : Number}, a.isInteger = true → a.exact = .fraction a.toInt 1 := by
    intro a ha
    cases a with
    | float x => cases ha
    | bool | int => rfl
  rw [Number.lt, fraction ha, fraction hb]
  simp [Number.Exact.lt]

theorem check_spec {n k : Int} (hn : whole? d.maxConnections = some n) (hk : whole? d.minConnections = some k) :
    (1 ≤ n ∧ 0 ≤ k ∧ k ≤ n ∧ ∃ c, d.check = .ok c ∧ ∀ s, c.get s = d.get s) ∨
      ¬ (1 ≤ n ∧ 0 ≤ k ∧ k ≤ n) ∧ ∃ e, d.check = .error e ∧ e.isConfiguration = true := by
  obtain ⟨a, ha, hai, rfl, hav⟩ := number?_of_whole? hn
  obtain ⟨b, hb, hbi, rfl, hbv⟩ := number?_of_whole? hk
  have hone : a.lt (.int 1) = decide (a.toInt < 1) := lt_of_isInteger hai rfl
  have hzero : b.lt (.int 0) = decide (b.toInt < 0) := lt_of_isInteger hbi rfl
  have hfit : a.lt b = decide (a.toInt < b.toInt) := lt_of_isInteger hai hbi
  have hcheck : d.check = if a.toInt < 1 then .error .noConnectionsAllowed
      else if b.toInt < 0 then .error .negativeMinimum
      else if a.toInt < b.toInt then .error .minimumAboveMaximum
      else .ok ⟨a, b, d.idleTimeoutMs, d.acquireTimeoutMs, d.reapIntervalMs, d.enabled⟩ := by
    simp only [Draft.check, Draft.numberOf, ha, hb]
    simp only [bind, Except.bind, throw, throwThe, MonadExceptOf.throw, pure, Except.pure, hone, hzero, hfit,
      decide_eq_true_eq]
  rw [hcheck]
  by_cases h1 : a.toInt < 1
  · exact .inr ⟨by omega, _, if_pos h1, rfl⟩
  by_cases h2 : b.toInt < 0
  · exact .inr ⟨by omega, _, by rw [if_neg h1, if_pos h2], rfl⟩
  by_cases h3 : a.toInt < b.toInt
  · exact .inr ⟨by omega, _, by rw [if_neg h1, if_neg h2, if_pos h3], rfl⟩
  refine .inl ⟨by omega, by omega, by omega, _, by rw [if_neg h1, if_neg h2, if_neg h3], fun s => ?_⟩
  cases s with
  | maxConnections => exact hav
  | minConnections => exact hbv
  | _ => rfl

theorem chosen_whole (hr : Readable r) (hw : WholeOrText r) {s : Setting} (hs : Sizing s.key) :
    ∃ n, whole? (chosen r s) = some n := by
  have hkind : SettingKind.ofKey s.key = .integer := by
    rcases hs with hs | hs <;> rw [hs] <;> decide
  rw [chosen]
  cases hv : Keyed.get? r s.key with
  | none =>
    rcases hs with hs | hs <;> rw [Setting.key_injective hs] <;> exact ⟨_, rfl⟩
  | some v =>
    have hm := Keyed.mem_of_get? hv
    have hkept := (hr _ hm).2
    rcases hw _ hm hs with hwhole | ⟨t, ht⟩
    · obtain ⟨n, hn⟩ := Option.isSome_iff_exists.mp hwhole
      refine ⟨n, ?_⟩
      cases v with
      | int | bool => exact hn
      | _ => cases hn
    · obtain rfl : v = .text t := ht
      simp only [kept?, hkind, readKind?, Option.isSome_map] at hkept
      obtain ⟨n, hn⟩ := Option.isSome_iff_exists.mp hkept
      refine ⟨n, ?_⟩
      simp only [Option.bind_some, kept?, hkind, readKind?, hn]
      rfl

theorem ofNumber_injective {a b : Number} (h : Value.ofNumber a = Value.ofNumber b) : a = b := by
  cases a <;> cases b <;> cases h <;> rfl

theorem PoolSettings.ext_get {c c' : PoolSettings} (h : ∀ s, c.get s = c'.get s) : c = c' := by
  obtain ⟨most, least, idle, wait, interval, enabled⟩ := c
  obtain ⟨most', least', idle', wait', interval', enabled'⟩ := c'
  obtain rfl := ofNumber_injective (h .maxConnections)
  obtain rfl := ofNumber_injective (h .minConnections)
  obtain rfl : idle = idle' := h .idleTimeoutMs
  obtain rfl : wait = wait' := h .acquireTimeoutMs
  obtain rfl : interval = interval' := h .reapIntervalMs
  obtain rfl : enabled = enabled' := h .enabled
  rfl

theorem ofSettings_spec (hd : (r.map Prod.fst).Nodup) (hw : WholeOrText r) :
    (Readable r ∧ SizesFit (chosen r .maxConnections) (chosen r .minConnections) ∧
      ∃ c, PoolSettings.ofSettings r = .ok c ∧ ∀ s, c.get s = chosen r s) ∨
    ¬ (Readable r ∧ SizesFit (chosen r .maxConnections) (chosen r .minConnections)) ∧
      ∃ e, PoolSettings.ofSettings r = .error e ∧ e.isConfiguration = true := by
  rw [PoolSettings.ofSettings, Keyed.ofPairs_of_nodup hd]
  rcases readSettings_spec hd {} with ⟨hr, d, hread, hget⟩ | ⟨hr, e, hread, he⟩
  · obtain ⟨n, hn⟩ := chosen_whole hr hw (s := .maxConnections) (.inl rfl)
    obtain ⟨k, hk⟩ := chosen_whole hr hw (s := .minConnections) (.inr rfl)
    rw [hread]
    rcases check_spec (d := d) ((congrArg whole? (hget .maxConnections)).trans hn)
      ((congrArg whole? (hget .minConnections)).trans hk) with ⟨h1, h2, h3, c, hc, hcget⟩ | ⟨hno, e, he, hconf⟩
    · exact .inl ⟨hr, ⟨n, k, hn, hk, h1, h2, h3⟩, c, hc, fun s => (hcget s).trans (hget s)⟩
    · refine .inr ⟨?_, e, he, hconf⟩
      rintro ⟨_, n', k', hn', hk', hfit⟩
      cases hn.symm.trans hn'
      cases hk.symm.trans hk'
      exact hno hfit
  · rw [hread]
    exact .inr ⟨fun h => hr h.1, e, rfl, he⟩

theorem readSettings_congr {k : String} {v w : Value}
    (h : ∀ s, Setting.ofKey? k = some s → s.read v = s.read w) (before after : List (String × Value)) (d : Draft) :
    readSettings (before ++ (k, v) :: after) d = readSettings (before ++ (k, w) :: after) d := by
  induction before generalizing d with
  | nil =>
    simp only [List.nil_append, readSettings]
    cases hk : Setting.ofKey? k with
    | none => rfl
    | some s => simp only [h s hk]
  | cons p before ih =>
    simp only [List.cons_append, readSettings, ih]

theorem Setting.read_numeral {s : Setting} (hs : Sizing s.key) {n : Int}
    (hn : (Nat.toDigits 10 n.natAbs).length ≤ Decimal.longestInteger) :
    s.read (.text (toString n)) = s.read (.int n) := by
  have hkind : s.kind = .integer := by
    rcases hs with hs | hs <;> rw [key_injective hs] <;> rfl
  simp only [read, hkind, readKind?, Decimal.readInteger?_toString hn, Option.map_some]

/-- A list of settings is accepted if every key is known, every text can be read by the kind of its key, and the sizes
fit; then each setting is what its text says, what was given, or its default. Any other list is refused for what it
says. In another order the settings come to the same, and so do sizes given as numbers in place of numerals. -/
theorem settings_in_any_order (hd : (r.map Prod.fst).Nodup) (hw : WholeOrText r) :
    ((∃ c, PoolSettings.ofSettings r = .ok c) ↔
      Readable r ∧ SizesFit (chosen r .maxConnections) (chosen r .minConnections)) ∧
    (∀ c, PoolSettings.ofSettings r = .ok c → ∀ s, c.get s = chosen r s) ∧
    (∀ e, PoolSettings.ofSettings r = .error e → e.isConfiguration = true) ∧
    (∀ r' : List (String × Value), r'.Perm r →
      (∀ c, PoolSettings.ofSettings r' = .ok c ↔ PoolSettings.ofSettings r = .ok c) ∧
      ∀ e, PoolSettings.ofSettings r' = .error e → e.isConfiguration = true) ∧
    ∀ (before after : List (String × Value)) (k : String) (n : Int), r = before ++ (k, .text (toString n)) :: after →
      Sizing k → (Nat.toDigits 10 n.natAbs).length ≤ 4300 →
      PoolSettings.ofSettings (before ++ (k, .int n) :: after) = PoolSettings.ofSettings r := by
  have blame : ∀ {r : List (String × Value)}, (r.map Prod.fst).Nodup → WholeOrText r →
      ∀ e, PoolSettings.ofSettings r = .error e → e.isConfiguration = true := by
    intro r hd hw e he
    rcases ofSettings_spec hd hw with ⟨_, _, c, hc, _⟩ | ⟨_, e', he', hconf⟩
    · cases hc.symm.trans he
    · cases he'.symm.trans he
      exact hconf
  refine ⟨⟨?_, ?_⟩, ?_, blame hd hw, fun r' hp => ⟨fun c => ?_, ?_⟩, ?_⟩
  · rintro ⟨c, hc⟩
    rcases ofSettings_spec hd hw with ⟨hr, hfit, _⟩ | ⟨_, e, he, _⟩
    · exact ⟨hr, hfit⟩
    · cases he.symm.trans hc
  · intro h
    rcases ofSettings_spec hd hw with ⟨_, _, c, hc, _⟩ | ⟨hno, _⟩
    · exact ⟨c, hc⟩
    · exact absurd h hno
  · intro c hc
    rcases ofSettings_spec hd hw with ⟨_, _, c', hc', hget⟩ | ⟨_, e, he, _⟩
    · cases hc'.symm.trans hc
      exact hget
    · cases he.symm.trans hc
  · have hd' : (r'.map Prod.fst).Nodup := (hp.map Prod.fst).nodup_iff.mpr hd
    rcases ofSettings_spec hd hw with ⟨hr, hfit, c₁, hc₁, hget₁⟩ | ⟨hno, e₁, he₁, _⟩ <;>
      rcases ofSettings_spec hd' (hw.perm hp) with ⟨hr', hfit', c₂, hc₂, hget₂⟩ | ⟨hno', e₂, he₂, _⟩
    · obtain rfl : c₂ = c₁ := PoolSettings.ext_get fun s => by rw [hget₂, chosen_perm hd hp, hget₁]
      rw [hc₁, hc₂]
    · rw [chosen_perm hd hp, chosen_perm hd hp] at hno'
      exact absurd ⟨hr.perm hp, hfit⟩ hno'
    · rw [chosen_perm hd hp, chosen_perm hd hp] at hfit'
      exact absurd ⟨hr'.perm hp.symm, hfit'⟩ hno
    · rw [he₁, he₂]
      exact iff_of_false nofun nofun
  · exact blame ((hp.map Prod.fst).nodup_iff.mpr hd) (hw.perm hp)
  · rintro before after k n rfl hk hn
    have hd' : ((before ++ (k, Value.int n) :: after).map Prod.fst).Nodup := by
      simpa only [List.map_append, List.map_cons] using hd
    rw [PoolSettings.ofSettings, PoolSettings.ofSettings, Keyed.ofPairs_of_nodup hd, Keyed.ofPairs_of_nodup hd']
    rw [readSettings_congr fun s hs => ?_]
    rw [Setting.ofKey?_eq_some hs] at hk
    exact (Setting.read_numeral hk hn).symm

def paddedSizes : List (String × Value) :=
  [("min_connections", .text " +1_0 "), ("enabled", .text "OFF"), ("max_connections", .text "10")]

theorem settings_in_any_order_padded :
    (paddedSizes.map Prod.fst).Nodup ∧ WholeOrText paddedSizes ∧
      ∃ c, PoolSettings.ofSettings paddedSizes = .ok c ∧ PoolSettings.ofSettings paddedSizes.reverse = .ok c ∧
        PoolSettings.ofSettings [("min_connections", .text " +1_0 "), ("enabled", .text "OFF"),
          ("max_connections", .int 10)] = .ok c ∧
        c.minConnections = .int 10 ∧ c.enabled = .bool false ∧ c.idleTimeoutMs = .int 30000 := by
  have hd : (paddedSizes.map Prod.fst).Nodup := by decide
  have hw : WholeOrText paddedSizes := by
    intro p hp _
    simp only [paddedSizes, List.mem_cons, List.not_mem_nil, or_false] at hp
    rcases hp with rfl | rfl | rfl <;> exact .inr ⟨_, rfl⟩
  have hr : Readable paddedSizes := by
    intro p hp
    simp only [paddedSizes, List.mem_cons, List.not_mem_nil, or_false] at hp
    rcases hp with rfl | rfl | rfl <;> exact ⟨by decide, by decide +kernel⟩
  have hfit : SizesFit (chosen paddedSizes .maxConnections) (chosen paddedSizes .minConnections) :=
    ⟨10, 10, by decide +kernel, by decide +kernel, by decide, by decide, by decide⟩
  obtain ⟨hok, hget, _, hperm, hnum⟩ := settings_in_any_order hd hw
  obtain ⟨c, hc⟩ := hok.mpr ⟨hr, hfit⟩
  refine ⟨hd, hw, c, hc, ((hperm _ (List.reverse_perm _)).1 c).mpr hc,
    (hnum [("min_connections", .text " +1_0 "), ("enabled", .text "OFF")] [] "max_connections" 10 rfl
      (.inl rfl) (by decide)).trans hc, ?_, ?_, ?_⟩
  · exact ofNumber_injective (hget c hc .minConnections)
  · exact hget c hc .enabled
  · exact hget c hc .idleTimeoutMs

end SqliteAccess.Config
