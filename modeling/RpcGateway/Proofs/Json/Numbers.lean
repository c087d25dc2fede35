import RpcGateway.Proofs.Json.Skipping
import RpcGateway.Proofs.Number.Shortest

/-!
Numbers as they are written: digits without a leading zero, a fraction and an exponent. Such a text
is read and skipped alike before anything that cannot continue a number.
-/
namespace RpcGateway.Json
open Number

/-- Whether an input cannot continue the digits before it. -/
def StopsDigits (s : Bytes) : Prop := ∀ b ∈ s.head?, isDigit b = false

/-- Whether an input cannot continue the number before it. -/
def StopsNumber (s : Bytes) : Prop :=
  ∀ b ∈ s.head?, isDigit b = false ∧ b ≠ point ∧ b ≠ 0x65 ∧ b ≠ 0x45

theorem stopsNumber_nil : StopsNumber [] := by
  intro b hb
  cases hb

theorem StopsNumber.stopsDigits {s : Bytes} (h : StopsNumber s) : StopsDigits s :=
  fun b hb => (h b hb).1

theorem StopsNumber.ne_cons {s r : Bytes} {b : UInt8} (h : StopsNumber s)
    (hb : b = point ∨ b = 0x65 ∨ b = 0x45) : s ≠ b :: r := by
  rintro rfl
  obtain ⟨-, hp, he, hE⟩ := h b rfl
  rcases hb with rfl | rfl | rfl
  · exact hp rfl
  · exact he rfl
  · exact hE rfl

theorem stopsDigits_cons {b : UInt8} (s : Bytes) (hb : isDigit b = false) :
    StopsDigits (b :: s) := by
  intro c hc
  cases hc
  exact hb

/-- Digits, and at least one. -/
structure IsRun (ds : Bytes) : Prop where
  nonempty : ds ≠ []
  digits : ∀ d ∈ ds, isDigit d = true

theorem IsRun.exists_cons {ds : Bytes} (h : IsRun ds) :
    ∃ d r, ds = d :: r ∧ isDigit d = true := by
  obtain ⟨d, r, rfl⟩ := List.exists_cons_of_ne_nil h.nonempty
  exact ⟨d, r, rfl, h.digits d List.mem_cons_self⟩

/-- The first digit is no zero in front of others. -/
theorem IsRun.exists_first {ds : Bytes} (h : IsRun ds)
    (hz : ds.head? = some 0x30 → ds.length = 1) :
    ∃ d r, ds = d :: r ∧ isDigit d = true ∧ ¬ (d = 0x30 ∧ 1 < (d :: r).length) := by
  obtain ⟨d, r, rfl, hd⟩ := h.exists_cons
  refine ⟨d, r, rfl, hd, ?_⟩
  rintro ⟨rfl, hl⟩
  have hone := hz rfl
  omega

theorem takeWhile_digits {ds s : Bytes} (hd : ∀ d ∈ ds, isDigit d = true) (hs : StopsDigits s) :
    (ds ++ s).takeWhile isDigit = ds := by
  rw [List.takeWhile_append_of_pos hd]
  cases s with
  | nil => simp
  | cons b s =>
    have hb := hs b rfl
    simp [hb]

theorem dropWhile_digits {ds s : Bytes} (hd : ∀ d ∈ ds, isDigit d = true) (hs : StopsDigits s) :
    (ds ++ s).dropWhile isDigit = s := by
  rw [List.dropWhile_append_of_pos hd]
  cases s with
  | nil => rfl
  | cons b s =>
    have hb := hs b rfl
    simp [hb]

/-- The part of a number that follows the letter of its exponent. -/
inductive ExponentText : Bytes → Prop
  | signed {es : Bytes} (down : Bool) (he : IsRun es) :
      ExponentText ((if down then minus else 0x2B) :: es)
  | plain {es : Bytes} (he : IsRun es) : ExponentText es

/-- The letter of an exponent. -/
def IsExponentLetter (b : UInt8) : Prop := b = 0x65 ∨ b = 0x45

/-- The part of a number that follows the digits before the exponent. -/
inductive ScaleText : Bytes → Prop
  | none : ScaleText []
  | exponent {letter : UInt8} {t : Bytes} (hl : IsExponentLetter letter) (h : ExponentText t) :
      ScaleText (letter :: t)

theorem IsExponentLetter.not_isDigit {b : UInt8} (h : IsExponentLetter b) : isDigit b = false := by
  rcases h with rfl | rfl <;> rfl

/-- A number without its sign. -/
inductive NumberText : Bytes → Prop
  | whole {ds t : Bytes} (hd : IsRun ds) (hz : ds.head? = some 0x30 → ds.length = 1)
      (ht : ScaleText t) : NumberText (ds ++ t)
  | fraction {ds fs t : Bytes} (hd : IsRun ds) (hz : ds.head? = some 0x30 → ds.length = 1)
      (hf : IsRun fs) (ht : ScaleText t) : NumberText (ds ++ point :: (fs ++ t))

/-- What a reader makes of a text does not depend on what follows, if that does not continue it. -/
def Steady {α : Type} (read : Bytes → Reading α) (t : Bytes) : Prop :=
  ∃ o : Except Fault α, ∀ rest, StopsNumber rest → read (t ++ rest) = o.map (·, rest)

theorem steady_scaled (negative : Bool) (n : Nat) (e : Int) : Steady (scaled negative n e) [] := by
  cases h : scale n e with
  | some x =>
    refine ⟨.ok (.double (if negative then x.neg else x)), fun rest _ => ?_⟩
    simp [scaled, h, Except.map]
  | none => exact ⟨.error .malformed, fun rest _ => by simp [scaled, h, Except.map]⟩

/-- What an exponent and the digits before it denote. -/
theorem exists_exponent_append (negative : Bool) (n : Nat) (e : Int) {t : Bytes}
    (h : ExponentText t) : ∃ (down : Bool) (es : Bytes), IsRun es ∧ ∀ rest, StopsDigits rest →
      exponent negative n e (t ++ rest) =
        if half32 ≤ ofDigits es then
          if n ≠ 0 ∧ !down then .error .malformed
          else .ok (.double (if negative then Double.zero.neg else .zero), rest)
        else scaled negative n (if down then e - ofDigits es else e + ofDigits es) rest := by
  cases h with
  | @signed es down he =>
    refine ⟨down, es, he, fun rest hr => ?_⟩
    have htake := takeWhile_digits he.digits hr
    have hdrop := dropWhile_digits he.digits hr
    obtain ⟨d, ds, rfl, hd⟩ := he.exists_cons
    rw [List.cons_append] at htake hdrop
    cases down <;> simp [exponent, minus, hd, htake, hdrop]
  | plain he =>
    refine ⟨false, t, he, fun rest hr => ?_⟩
    have htake := takeWhile_digits he.digits hr
    have hdrop := dropWhile_digits he.digits hr
    obtain ⟨d, ds, rfl, hd⟩ := he.exists_cons
    have hplus : d ≠ 0x2B := ne_of_isDigit hd rfl
    have hminus : d ≠ 0x2D := ne_of_isDigit hd rfl
    rw [List.cons_append] at htake hdrop ⊢
    simp [exponent, hplus, hminus, hd, htake, hdrop]

theorem steady_exponent (negative : Bool) (n : Nat) (e : Int) {t : Bytes} (h : ExponentText t) :
    Steady (exponent negative n e) t := by
  obtain ⟨down, es, -, happend⟩ := exists_exponent_append negative n e h
  by_cases hbig : half32 ≤ ofDigits es
  · refine ⟨if n ≠ 0 ∧ !down then .error .malformed
      else .ok (.double (if negative then Double.zero.neg else .zero)), fun rest hr => ?_⟩
    rw [happend rest hr.stopsDigits, if_pos hbig]
    split <;> rfl
  · obtain ⟨o, ho⟩ := steady_scaled negative n (if down then e - ofDigits es else e + ofDigits es)
    refine ⟨o, fun rest hr => ?_⟩
    rw [happend rest hr.stopsDigits, if_neg hbig]
    exact ho rest hr

theorem steady_fraction (negative : Bool) (n : Nat) (e : Int) {fs t : Bytes} (hf : IsRun fs)
    (ht : ScaleText t) : Steady (fraction negative n e) (fs ++ t) := by
  have hne : fs.isEmpty = false := by simpa using hf.nonempty
  cases ht with
  | none =>
    obtain ⟨o, ho⟩ := steady_scaled negative (absorb n 0 fs).1 (e - (absorb n 0 fs).2)
    refine ⟨o, fun rest hr => ?_⟩
    rw [← ho rest hr, List.append_nil, List.nil_append]
    simp only [fraction, takeWhile_digits hf.digits hr.stopsDigits,
      dropWhile_digits hf.digits hr.stopsDigits, hne, Bool.false_eq_true, if_false]
    split
    · cases hr.ne_cons (.inr (.inl rfl)) rfl
    · cases hr.ne_cons (.inr (.inr rfl)) rfl
    · rfl
  | @exponent letter t hl he =>
    obtain ⟨o, ho⟩ := steady_exponent negative (absorb n 0 fs).1 (e - (absorb n 0 fs).2) he
    refine ⟨o, fun rest hr => ?_⟩
    rw [← ho rest hr, List.append_assoc, List.cons_append]
    have hstop : StopsDigits (letter :: (t ++ rest)) := stopsDigits_cons _ hl.not_isDigit
    simp only [fraction, takeWhile_digits hf.digits hstop, dropWhile_digits hf.digits hstop, hne]
    rcases hl with rfl | rfl <;> rfl

/-- What a number makes of its first digits, before it looks at what follows them. -/
theorem number_append (negative : Bool) {ds t : Bytes} (hd : IsRun ds)
    (hz : ds.head? = some 0x30 → ds.length = 1) : StopsDigits t →
    number negative (ds ++ t) =
      match t with
      | 0x2E :: r => fraction negative (absorb 0 0 ds).1 ((ds.length - (absorb 0 0 ds).2 : Nat)) r
      | 0x65 :: r | 0x45 :: r =>
        exponent negative (absorb 0 0 ds).1 ((ds.length - (absorb 0 0 ds).2 : Nat)) r
      | r =>
        if ds.length - (absorb 0 0 ds).2 = 0 then .ok (whole negative (absorb 0 0 ds).1, r)
        else scaled negative (absorb 0 0 ds).1 ((ds.length - (absorb 0 0 ds).2 : Nat)) r := by
  intro ht
  have htake := takeWhile_digits hd.digits ht
  have hdrop := dropWhile_digits hd.digits ht
  obtain ⟨d, ds, rfl, hdd, hlead⟩ := hd.exists_first hz
  rw [List.cons_append] at htake hdrop ⊢
  simp only [number, hdd, htake, hdrop, hlead, if_false, Bool.not_true, Bool.false_eq_true]
  rfl

theorem steady_number (negative : Bool) {t : Bytes} (h : NumberText t) :
    Steady (number negative) t := by
  cases h with
  | @whole ds t hd hz ht =>
    cases ht with
    | none =>
      obtain ⟨o, ho⟩ := steady_scaled negative (absorb 0 0 ds).1
        ((ds.length - (absorb 0 0 ds).2 : Nat))
      refine ⟨if ds.length - (absorb 0 0 ds).2 = 0 then .ok (.whole negative (absorb 0 0 ds).1)
        else o, fun rest hr => ?_⟩
      rw [List.append_nil, number_append negative hd hz hr.stopsDigits]
      split
      · cases hr.ne_cons (.inl rfl) rfl
      · cases hr.ne_cons (.inr (.inl rfl)) rfl
      · cases hr.ne_cons (.inr (.inr rfl)) rfl
      · split
        · rfl
        · exact ho rest hr
    | @exponent letter t hl he =>
      obtain ⟨o, ho⟩ := steady_exponent negative (absorb 0 0 ds).1
        ((ds.length - (absorb 0 0 ds).2 : Nat)) he
      refine ⟨o, fun rest hr => ?_⟩
      have hstop : StopsDigits (letter :: (t ++ rest)) := stopsDigits_cons _ hl.not_isDigit
      rw [← ho rest hr, List.append_assoc, List.cons_append, number_append negative hd hz hstop]
      rcases hl with rfl | rfl <;> rfl
  | @fraction ds fs t hd hz hf ht =>
    obtain ⟨o, ho⟩ := steady_fraction negative (absorb 0 0 ds).1
      ((ds.length - (absorb 0 0 ds).2 : Nat)) hf ht
    refine ⟨o, fun rest hr => ?_⟩
    have hstop : StopsDigits (point :: (fs ++ t ++ rest)) := stopsDigits_cons _ rfl
    rw [← ho rest hr, List.append_assoc, List.cons_append, number_append negative hd hz hstop]
    rfl

/-! ## Skipping -/

theorem skipDigits_run {ds t : Bytes} (hd : IsRun ds) (ht : StopsDigits t) :
    skipDigits (ds ++ t) = .ok t := by
  have hdrop := dropWhile_digits hd.digits ht
  obtain ⟨d, ds, rfl, hdigit⟩ := hd.exists_cons
  rw [List.cons_append] at hdrop ⊢
  rw [skipDigits_of_cons _ hdigit, hdrop]

theorem ExponentText.ends {t rest : Bytes} (h : ExponentText t) (hr : StopsDigits rest) :
    ExponentEnds rest (t ++ rest) := by
  cases h with
  | signed down he =>
    have hdrop := dropWhile_digits he.digits hr
    obtain ⟨d, ds, rfl, hd⟩ := he.exists_cons
    exact .signed (by cases down <;> simp [minus]) hd hdrop
  | plain he =>
    have hdrop := dropWhile_digits he.digits hr
    obtain ⟨d, ds, rfl, hd⟩ := he.exists_cons
    exact .plain hd hdrop

theorem skipExponent_text {t rest : Bytes} (ht : ScaleText t) (hr : StopsNumber rest) :
    skipExponent (t ++ rest) = .ok rest := by
  cases ht with
  | none =>
    exact skipExponent_of_other (fun r => hr.ne_cons (.inr (.inl rfl)))
      (fun r => hr.ne_cons (.inr (.inr rfl)))
  | exponent hl he => exact skipExponent_of_ends (he.ends hr.stopsDigits) hl

theorem ScaleText.stopsDigits {t rest : Bytes} (ht : ScaleText t) (hr : StopsNumber rest) :
    StopsDigits (t ++ rest) := by
  cases ht with
  | none => exact hr.stopsDigits
  | exponent hl he => exact stopsDigits_cons _ hl.not_isDigit

theorem skipNumber_append {ds t : Bytes} (hd : IsRun ds)
    (hz : ds.head? = some 0x30 → ds.length = 1) : StopsDigits t →
    skipNumber (ds ++ t) =
      match t with
      | 0x2E :: r => skipDigits r >>= skipExponent
      | r => skipExponent r := by
  intro ht
  have htake := takeWhile_digits hd.digits ht
  have hdrop := dropWhile_digits hd.digits ht
  obtain ⟨d, ds, rfl, hdd, hlead⟩ := hd.exists_first hz
  rw [List.cons_append] at htake hdrop ⊢
  simp only [skipNumber, hdd, htake, hdrop, hlead, if_false, Bool.not_true, Bool.false_eq_true]
  rfl

theorem skipNumber_text {t rest : Bytes} (ht : NumberText t) (hr : StopsNumber rest) :
    skipNumber (t ++ rest) = .ok rest := by
  cases ht with
  | whole hd hz ht =>
    rw [List.append_assoc, skipNumber_append hd hz (ht.stopsDigits hr)]
    have hskip := skipExponent_text ht hr
    split
    · next r hp =>
      cases ht with
      | none => exact absurd hp (hr.ne_cons (.inl rfl))
      | exponent hl he =>
        cases hp
        rcases hl with hl | hl <;> cases hl
    · exact hskip
  | @fraction ds fs t hd hz hf ht =>
    have hstop : StopsDigits (point :: (fs ++ t ++ rest)) := stopsDigits_cons _ rfl
    rw [List.append_assoc, List.cons_append, skipNumber_append hd hz hstop]
    have hskip := skipExponent_text ht hr
    simp only [point]
    rw [List.append_assoc, skipDigits_run hf (ht.stopsDigits hr)]
    exact hskip

theorem isRun_takeWhile {d : UInt8} (s : Bytes) (hd : isDigit d = true) :
    IsRun ((d :: s).takeWhile isDigit) := by
  refine ⟨?_, fun c hc => List.all_eq_true.mp List.all_takeWhile c hc⟩
  rw [List.takeWhile_cons_of_pos hd]
  exact List.cons_ne_nil _ _

theorem run_of_skipDigits {s rest : Bytes} (h : skipDigits s = .ok rest) :
    ∃ ds, IsRun ds ∧ s = ds ++ rest := by
  unfold skipDigits at h
  split at h
  · cases h
  next d s =>
  split at h
  · next hd =>
    cases h
    exact ⟨_, isRun_takeWhile s hd, List.takeWhile_append_dropWhile.symm⟩
  · cases h

theorem text_of_skipExponent {s rest : Bytes} (h : skipExponent s = .ok rest) :
    ∃ t, ScaleText t ∧ s = t ++ rest := by
  have hsigned : ∀ {letter : UInt8} {r : Bytes} (down : Bool), IsExponentLetter letter →
      skipDigits r = .ok rest → ∃ t, ScaleText t ∧
        letter :: (if down then minus else 0x2B) :: r = t ++ rest := by
    intro letter r down hl hr
    obtain ⟨ds, hd, rfl⟩ := run_of_skipDigits hr
    exact ⟨_, .exponent hl (.signed down hd), rfl⟩
  have hplain : ∀ {letter : UInt8} {r : Bytes}, IsExponentLetter letter →
      skipDigits r = .ok rest → ∃ t, ScaleText t ∧ letter :: r = t ++ rest := by
    intro letter r hl hr
    obtain ⟨ds, hd, rfl⟩ := run_of_skipDigits hr
    exact ⟨_, .exponent hl (.plain hd), rfl⟩
  unfold skipExponent at h
  split at h
  · exact hsigned false (.inl rfl) h
  · exact hsigned false (.inr rfl) h
  · exact hsigned true (.inl rfl) h
  · exact hsigned true (.inr rfl) h
  · exact hplain (.inl rfl) h
  · exact hplain (.inr rfl) h
  · cases h
    exact ⟨[], .none, rfl⟩

/-- What is skipped as a number is one. -/
theorem text_of_skipNumber {s rest : Bytes} (h : skipNumber s = .ok rest) :
    ∃ t, NumberText t ∧ s = t ++ rest := by
  unfold skipNumber at h
  split at h
  · cases h
  next d s =>
  split at h
  · cases h
  next hd =>
  split at h
  · cases h
  next hlead =>
  have hrun : IsRun ((d :: s).takeWhile isDigit) := isRun_takeWhile s (by simpa using hd)
  have hz : ((d :: s).takeWhile isDigit).head? = some 0x30 →
      ((d :: s).takeWhile isDigit).length = 1 := by
    intro hhead
    rw [List.takeWhile_cons_of_pos (by simpa using hd)] at hhead
    have hzero : d = 0x30 := Option.some.inj hhead
    have hpos := List.length_pos_iff.mpr hrun.nonempty
    have hlen : ¬ 1 < ((d :: s).takeWhile isDigit).length := fun hl => hlead ⟨hzero, hl⟩
    omega
  have hcut : (d :: s).takeWhile isDigit ++ (d :: s).dropWhile isDigit = d :: s :=
    List.takeWhile_append_dropWhile
  generalize (d :: s).takeWhile isDigit = ds at hrun hz hcut
  generalize (d :: s).dropWhile isDigit = tail at h hcut
  rw [← hcut]
  split at h
  · obtain ⟨u, hu, he⟩ := exists_of_bind_eq_ok h
    obtain ⟨fs, hf, rfl⟩ := run_of_skipDigits hu
    obtain ⟨t, ht, rfl⟩ := text_of_skipExponent he
    exact ⟨_, .fraction hrun hz hf ht, by simp [point]⟩
  · obtain ⟨t, ht, rfl⟩ := text_of_skipExponent h
    exact ⟨_, .whole hrun hz ht, by simp⟩

/-! ## Printed numbers -/

theorem isDigit_ofNat {n : Nat} (h : n < 10) : isDigit (0x30 + n.toUInt8) = true := by
  have : ∀ n < 10, isDigit (0x30 + Nat.toUInt8 n) = true := by decide
  exact this n h

theorem isRun_digits (n : Nat) : IsRun (digits n) := by
  induction n using Nat.strongRecOn with
  | _ n ih =>
    rw [digits]
    split
    · next h => exact ⟨by simp, by simpa using isDigit_ofNat h⟩
    · next h =>
      refine ⟨by simp, fun d hd => ?_⟩
      rcases List.mem_append.mp hd with hd | hd
      · exact (ih (n / 10) (by omega)).digits d hd
      · rw [List.mem_singleton.mp hd]
        exact isDigit_ofNat (by omega)

theorem head?_digits {n : Nat} (hn : 0 < n) : (digits n).head? ≠ some 0x30 := by
  induction n using Nat.strongRecOn with
  | _ n ih =>
    rw [digits]
    split
    · next h =>
      have : ∀ n < 10, 0 < n → ([0x30 + Nat.toUInt8 n] : Bytes).head? ≠ some 0x30 := by decide
      exact this n h hn
    · next h =>
      rw [List.head?_append_of_ne_nil _ (isRun_digits _).nonempty]
      exact ih (n / 10) (by omega) (by omega)

theorem length_digits_of_zero_head {n : Nat} (h : (digits n).head? = some 0x30) :
    (digits n).length = 1 := by
  rcases Nat.eq_zero_or_pos n with rfl | hn
  · rw [digits]
    rfl
  · exact absurd h (head?_digits hn)

theorem numberText_digits (n : Nat) : NumberText (digits n) := by
  have h := NumberText.whole (isRun_digits n) length_digits_of_zero_head .none
  rwa [List.append_nil] at h

/-- The first digits of a run that has some and does not begin with a zero. -/
theorem isRun_take {ds : Bytes} {n : Nat} (hd : IsRun ds) (hn : 0 < n) : IsRun (ds.take n) := by
  refine ⟨?_, fun d h => hd.digits d (List.mem_of_mem_take h)⟩
  rw [ne_eq, List.take_eq_nil_iff, not_or]
  exact ⟨by omega, hd.nonempty⟩

theorem isRun_drop {ds : Bytes} {n : Nat} (hd : IsRun ds) (hn : n < ds.length) :
    IsRun (ds.drop n) := by
  refine ⟨?_, fun d h => hd.digits d (List.mem_of_mem_drop h)⟩
  rw [ne_eq, List.drop_eq_nil_iff]
  omega

theorem isDigit_of_mem_zeros {n : Nat} {d : UInt8} (h : d ∈ List.replicate n (0x30 : UInt8)) :
    isDigit d = true := by
  rw [List.eq_of_mem_replicate h]
  rfl

theorem isRun_append {ds es : Bytes} (hne : ds ++ es ≠ []) (hd : ∀ d ∈ ds, isDigit d = true)
    (he : ∀ d ∈ es, isDigit d = true) : IsRun (ds ++ es) :=
  ⟨hne, fun d h => (List.mem_append.mp h).elim (hd d) (he d)⟩

theorem isRun_zero : IsRun [0x30] := ⟨List.cons_ne_nil _ _, List.forall_mem_singleton.mpr rfl⟩

theorem numberText_layout {ds : Bytes} (hd : IsRun ds) (hz : ds.head? ≠ some 0x30) (e : Int) :
    NumberText (layout ds e) := by
  -- Only the case below one puts a zero in front of the digits.
  have hhead : ∀ (es : Bytes) (n : Nat), (ds.take (n + 1) ++ es).head? ≠ some 0x30 := by
    intro es n
    obtain ⟨d, ds, rfl⟩ := List.exists_cons_of_ne_nil hd.nonempty
    exact hz
  unfold layout
  split
  · dsimp only
    split
    · next hl =>
      have hrun : IsRun (ds ++ List.replicate (e.toNat + 1 - ds.length) 0x30) :=
        isRun_append (by simp [hd.nonempty]) hd.digits fun d => isDigit_of_mem_zeros
      have hlead : (ds ++ List.replicate (e.toNat + 1 - ds.length) 0x30).head? ≠ some 0x30 := by
        rw [← List.take_of_length_le hl]
        exact hhead _ _
      exact .fraction hrun (absurd · hlead) isRun_zero .none
    · next hl =>
      have hlead : (ds.take (e.toNat + 1)).head? ≠ some 0x30 := by
        simpa using hhead [] e.toNat
      have hrest : IsRun (ds.drop (e.toNat + 1)) := isRun_drop hd (by omega)
      have htext := NumberText.fraction (isRun_take hd (Nat.succ_pos e.toNat)) (absurd · hlead)
        hrest .none
      rwa [List.append_nil] at htext
  have hlead : (ds.take 1).head? ≠ some 0x30 := by
    simpa using hhead [] 0
  split
  · have hrun : IsRun (List.replicate (-e - 1).toNat 0x30 ++ ds) :=
      isRun_append (by simp [hd.nonempty]) (fun d => isDigit_of_mem_zeros) hd.digits
    have htext := NumberText.fraction isRun_zero (fun _ => rfl) hrun .none
    rwa [List.append_nil] at htext
  · have hscale : ScaleText (0x65 :: (if e < 0 then minus else 0x2B) :: digits e.natAbs) := by
      have he := ExponentText.signed (decide (e < 0)) (isRun_digits e.natAbs)
      simp only [decide_eq_true_eq] at he
      exact .exponent (.inl rfl) he
    have hone := isRun_take hd Nat.one_pos
    dsimp only
    split
    · rw [List.append_nil]
      exact .whole hone (absurd · hlead) hscale
    · next hl =>
      have hrest : IsRun (ds.drop 1) := isRun_drop hd (by omega)
      have htext := NumberText.fraction hone (absurd · hlead) hrest hscale
      rw [List.append_assoc]
      exact htext

/-- A number with a sign in front, if it is negative. -/
def signed (negative : Bool) (t : Bytes) : Bytes := if negative then minus :: t else t

theorem printInt_eq (i : Int) : printInt i = signed (decide (i < 0)) (digits i.natAbs) := by
  simp [printInt, signed]

/-- The text of a finite number after its sign. -/
theorem printDouble_eq {x : Double} (hf : x.isFinite) :
    ∃ t, NumberText t ∧ printDouble x = signed x.isNegative t := by
  cases hz : x.isZero with
  | true =>
    have hzero := NumberText.fraction isRun_zero (fun _ => rfl) isRun_zero .none
    exact ⟨_, hzero, by simp [printDouble, signed, hz]⟩
  | false =>
    have hn := x.shortest_pos hf hz
    generalize hp : shortest .double x.parts.1 x.parts.2 = p at hn
    obtain ⟨n, k⟩ := p
    have hlayout := numberText_layout (isRun_digits n) (head?_digits hn) (k + (digits n).length - 1)
    exact ⟨_, hlayout, by simp [printDouble, signed, hz, hp]⟩

theorem NumberText.exists_cons {t : Bytes} (h : NumberText t) :
    ∃ d r, t = d :: r ∧ isDigit d = true := by
  have hcons : ∀ {ds u : Bytes}, IsRun ds → ∃ d r, ds ++ u = d :: r ∧ isDigit d = true := by
    intro ds u hd
    obtain ⟨d, ds, rfl, hdigit⟩ := hd.exists_cons
    exact ⟨d, ds ++ u, rfl, hdigit⟩
  cases h with
  | whole hd => exact hcons hd
  | fraction hd => exact hcons hd

theorem not_isBlank_of_isDigit {b : UInt8} (hb : isDigit b = true) : isBlank b = false := by
  have h20 : b ≠ 0x20 := ne_of_isDigit hb rfl
  have h0A : b ≠ 0x0A := ne_of_isDigit hb rfl
  have h09 : b ≠ 0x09 := ne_of_isDigit hb rfl
  have h0D : b ≠ 0x0D := ne_of_isDigit hb rfl
  simp [isBlank, h20, h0A, h09, h0D]

/-- The text of a number begins with a digit or with the minus sign. -/
theorem signed_ne {negative : Bool} {t r : Bytes} {b : UInt8} (ht : NumberText t) (hm : b ≠ minus)
    (hd : isDigit b = false) : signed negative t ≠ b :: r := by
  intro h
  obtain ⟨d, u, rfl, hdigit⟩ := ht.exists_cons
  cases negative with
  | true => exact hm (List.cons.inj h).1.symm
  | false => exact ne_of_isDigit hdigit hd (List.cons.inj h).1

theorem skipsTo_number {bound : Nat} {t rest : Bytes} (negative : Bool) (ht : NumberText t)
    (hr : StopsNumber rest) : SkipsTo bound (signed negative t ++ rest) rest := by
  have hskip := skipNumber_text ht hr
  have hl := length_of_skipNumber hskip
  obtain ⟨d, r, rfl, hd⟩ := ht.exists_cons
  cases negative with
  | true =>
    exact skipsTo_scalar (by decide) (by decide) (skipBlank_of_not_blank _ (by decide)) hskip
      (Nat.le_of_lt hl)
  | false =>
    rw [List.cons_append] at hskip hl
    rw [← skipScalar_digit hd] at hskip
    exact skipsTo_scalar (ne_of_isDigit hd rfl) (ne_of_isDigit hd rfl)
      (skipBlank_of_not_blank _ (not_isBlank_of_isDigit hd)) hskip (Nat.le_of_lt_succ hl)

theorem valueWith_number {bound : Nat} {t : Bytes} (negative : Bool) (ht : NumberText t)
    (rest : Bytes) (array object : Bytes → Reading Json) :
    valueWith bound array object (signed negative t ++ rest) = number negative (t ++ rest) := by
  obtain ⟨d, r, rfl, hd⟩ := ht.exists_cons
  cases negative with
  | true => rfl
  | false =>
    have hs : skipBlank (d :: (r ++ rest)) = d :: (r ++ rest) :=
      skipBlank_of_not_blank _ (not_isBlank_of_isDigit hd)
    have hq : d ≠ quote := ne_of_isDigit hd rfl
    have ho : d ≠ openBrace := ne_of_isDigit hd rfl
    have ha : d ≠ openBracket := ne_of_isDigit hd rfl
    have hm : d ≠ minus := ne_of_isDigit hd rfl
    simp only [signed, Bool.false_eq_true, if_false, List.cons_append, valueWith, hs, hq, ho, ha,
      hm, hd, if_true]

/-! ## Integers that are read back -/

/-- An integer of 64 bits, with or without sign. -/
def IsWord (i : Int) : Prop := -half64 ≤ i ∧ i ≤ maxWord

theorem le_foldl_digits (ds : Bytes) (n : Nat) :
    n ≤ ds.foldl (fun n d => 10 * n + digitValue d) n := by
  induction ds generalizing n with
  | nil => exact Nat.le_refl n
  | cons d ds ih =>
    have hle := ih (10 * n + digitValue d)
    rw [List.foldl_cons]
    omega

/-- A number that fits a word is absorbed to its last digit. -/
theorem absorb_eq (ds : Bytes) (n k : Nat)
    (h : ds.foldl (fun n d => 10 * n + digitValue d) n ≤ maxWord) :
    absorb n k ds = (ds.foldl (fun n d => 10 * n + digitValue d) n, k + ds.length) := by
  induction ds generalizing n k with
  | nil => rfl
  | cons d ds ih =>
    rw [List.foldl_cons] at h ⊢
    have hnext : 10 * n + digitValue d ≤ maxWord := Nat.le_trans (le_foldl_digits ds _) h
    rw [absorb, if_pos hnext, ih _ _ h, List.length_cons]
    congr 1
    omega

theorem absorb_le (ds : Bytes) {n : Nat} (k : Nat) (h : n ≤ maxWord) :
    (absorb n k ds).1 ≤ maxWord := by
  induction ds generalizing n k with
  | nil => exact h
  | cons d ds ih =>
    rw [absorb]
    split
    · next hnext => exact ih (k + 1) hnext
    · exact h

theorem number_digits (negative : Bool) {n : Nat} (hn : n ≤ maxWord) {rest : Bytes}
    (hr : StopsNumber rest) :
    number negative (digits n ++ rest) = .ok (whole negative n, rest) := by
  have habsorb : absorb 0 0 (digits n) = (n, (digits n).length) := by
    have hfold : (digits n).foldl (fun n d => 10 * n + digitValue d) 0 = n := ofDigits_digits n
    rw [absorb_eq _ _ _ (by rwa [hfold]), hfold, Nat.zero_add]
  rw [number_append negative (isRun_digits n) length_digits_of_zero_head hr.stopsDigits]
  split
  · cases hr.ne_cons (.inl rfl) rfl
  · cases hr.ne_cons (.inr (.inl rfl)) rfl
  · cases hr.ne_cons (.inr (.inr rfl)) rfl
  · rw [habsorb, if_pos (Nat.sub_self _)]

theorem whole_natAbs {i : Int} (hi : IsWord i) : whole (decide (i < 0)) i.natAbs = .int i := by
  obtain ⟨hlow, hhigh⟩ := hi
  unfold whole
  by_cases hneg : i < 0
  · have hrange : 0 < i.natAbs ∧ i.natAbs ≤ half64 := by omega
    have heq : -(i.natAbs : Int) = i := by omega
    simp only [hneg, decide_true, if_true, hrange, and_self, heq]
  · have heq : (i.natAbs : Int) = i := by omega
    simp only [hneg, decide_false, Bool.false_eq_true, if_false, heq]

/-- Integers of 64 bits are read back. -/
theorem value_printInt {i : Int} (hi : IsWord i) (bound : Nat) {rest : Bytes}
    (hr : StopsNumber rest) (array object : Bytes → Reading Json) :
    valueWith bound array object (printInt i ++ rest) = .ok (.int i, rest) := by
  have hn : i.natAbs ≤ maxWord := by
    obtain ⟨hlow, hhigh⟩ := hi
    have hword : (half64 : Nat) ≤ maxWord := by decide
    omega
  rw [printInt_eq, valueWith_number _ (numberText_digits _), number_digits _ hn hr, whole_natAbs hi]

/-- A number with a fraction or an exponent is not taken for an integer. -/
theorem double_of_scaled {negative : Bool} {n : Nat} {e : Int} {s rest : Bytes} {v : Json}
    (h : scaled negative n e s = .ok (v, rest)) : ∃ x, v = .double x := by
  unfold scaled at h
  split at h
  · cases h
    exact ⟨_, rfl⟩
  · cases h

theorem double_of_exponent {negative : Bool} {n : Nat} {e : Int} {s rest : Bytes} {v : Json}
    (h : exponent negative n e s = .ok (v, rest)) : ∃ x, v = .double x := by
  unfold exponent at h
  split at h
  split at h
  · cases h
  split at h
  · cases h
  dsimp only at h
  split at h
  · split at h
    · cases h
    · cases h
      exact ⟨_, rfl⟩
  · exact double_of_scaled h

theorem double_of_fraction {negative : Bool} {n : Nat} {e : Int} {s rest : Bytes} {v : Json}
    (h : fraction negative n e s = .ok (v, rest)) : ∃ x, v = .double x := by
  unfold fraction at h
  dsimp only at h
  split at h
  · cases h
  split at h
  · exact double_of_exponent h
  · exact double_of_exponent h
  · exact double_of_scaled h

theorem kind_of_whole (negative : Bool) {n : Nat} (hn : n ≤ maxWord) :
    (∃ i, whole negative n = .int i ∧ IsWord i) ∨ ∃ x, whole negative n = .double x := by
  unfold whole
  split
  · split
    · exact .inl ⟨_, rfl, by constructor <;> omega⟩
    · exact .inr ⟨_, rfl⟩
  · exact .inl ⟨_, rfl, by constructor <;> omega⟩

/-- A number that is read is an integer of 64 bits, or it is not taken for an integer. -/
theorem kind_of_number {negative : Bool} {s rest : Bytes} {v : Json}
    (h : number negative s = .ok (v, rest)) :
    (∃ i, v = .int i ∧ IsWord i) ∨ ∃ x, v = .double x := by
  unfold number at h
  split at h
  · cases h
  split at h
  · cases h
  dsimp only at h
  split at h
  · cases h
  split at h
  · exact .inr (double_of_fraction h)
  · exact .inr (double_of_exponent h)
  · exact .inr (double_of_exponent h)
  · split at h
    · obtain ⟨rfl, -⟩ := Prod.mk.inj (Except.ok.inj h)
      exact kind_of_whole negative (absorb_le _ 0 (Nat.zero_le _))
    · exact .inr (double_of_scaled h)

end RpcGateway.Json
