import RpcGateway.Http.Admission

/-!
The checks before a body is read, as conditions on the header fields. A request is admitted exactly
if it is a POST, its first declared length does not exceed the cap, and its content is JSON.
-/
namespace RpcGateway.Http
open Number

/-- The first declared length is visible text that is, blanks aside, a number of 64 bits. -/
def Declares (h : Headers) (n : Nat) : Prop :=
  ∃ value, h.get? "content-length" = some value ∧ isVisible value = true ∧
    natural? (trim value) = some n ∧ n < words64

/-- The declared length exceeds the cap. -/
def DeclaresOver (h : Headers) (cap : Nat) : Prop := ∃ n, Declares h n ∧ cap < n

theorem text?_eq_some_iff {h : Headers} {name : String} {value : Bytes} :
    h.text? name = some value ↔ h.get? name = some value ∧ isVisible value = true := by
  unfold Headers.text? visible?
  constructor
  · intro ht
    obtain ⟨v, hv, hvis⟩ := Option.bind_eq_some_iff.mp ht
    split at hvis
    · next hb => cases hvis; exact ⟨hv, hb⟩
    · cases hvis
  · rintro ⟨hv, hb⟩
    simp [hv, hb]

theorem declaredLength_eq_some_iff {h : Headers} {n : Nat} :
    declaredLength h = some n ↔ Declares h n := by
  unfold declaredLength Declares
  constructor
  · intro hd
    obtain ⟨value, hv, hd⟩ := Option.bind_eq_some_iff.mp hd
    obtain ⟨k, hk, hd⟩ := Option.bind_eq_some_iff.mp hd
    obtain ⟨hget, hvis⟩ := text?_eq_some_iff.mp hv
    change ((if k < words64 then some () else none).bind fun _ => some k) = some n at hd
    split at hd
    · next hw =>
      cases hd
      exact ⟨value, hget, hvis, hk, hw⟩
    · cases hd
  · rintro ⟨value, hget, hvis, hk, hw⟩
    rw [text?_eq_some_iff.mpr ⟨hget, hvis⟩]
    show (natural? (trim value) >>= fun n => _) = some n
    rw [hk]
    show ((if n < words64 then some () else none).bind fun _ => some n) = some n
    rw [if_pos hw]
    rfl

theorem Declares.unique {h : Headers} {m n : Nat} (hm : Declares h m) (hn : Declares h n) :
    m = n := by
  rw [← declaredLength_eq_some_iff] at hm hn
  exact Option.some.inj (hm.symm.trans hn)

theorem checkRequest_wrong_verb {method : String} (h : Headers) (cap : Nat)
    (hv : method ≠ "POST") : checkRequest method h cap = .error (.methodNotAllowed method) := by
  simp [checkRequest, hv]

theorem checkRequest_declared_over {h : Headers} {n cap : Nat} (hn : Declares h n)
    (hc : cap < n) : checkRequest "POST" h cap = .error (.payloadTooLarge n cap) := by
  have hd := declaredLength_eq_some_iff.mpr hn
  simp [checkRequest, hd, Option.filter, hc]

theorem filter_declaredLength {h : Headers} {cap : Nat} (hn : ¬ DeclaresOver h cap) :
    (declaredLength h).filter (cap < ·) = none := by
  rw [Option.filter_eq_none_iff]
  intro n hd hc
  exact hn ⟨n, declaredLength_eq_some_iff.mp hd, by simpa using hc⟩

theorem checkRequest_other_media {h : Headers} {cap : Nat} (hn : ¬ DeclaresOver h cap)
    (hj : hasJsonContent h = false) : checkRequest "POST" h cap = .error .unsupportedMediaType := by
  simp [checkRequest, filter_declaredLength hn, hj]

theorem checkRequest_admitted {h : Headers} {cap : Nat} (hn : ¬ DeclaresOver h cap)
    (hj : hasJsonContent h = true) : checkRequest "POST" h cap = .ok () := by
  simp [checkRequest, filter_declaredLength hn, hj]

theorem checkRequest_eq_ok_iff {method : String} {h : Headers} {cap : Nat} :
    checkRequest method h cap = .ok () ↔
      method = "POST" ∧ ¬ DeclaresOver h cap ∧ hasJsonContent h = true := by
  constructor
  · intro hc
    by_cases hv : method = "POST"
    · subst hv
      have hd : ¬ DeclaresOver h cap := by
        rintro ⟨n, hn, ho⟩
        rw [checkRequest_declared_over hn ho] at hc
        cases hc
      refine ⟨rfl, hd, ?_⟩
      cases hj : hasJsonContent h with
      | true => rfl
      | false =>
        rw [checkRequest_other_media hd hj] at hc
        cases hc
    · rw [checkRequest_wrong_verb h cap hv] at hc
      cases hc
  · rintro ⟨rfl, hd, hj⟩
    exact checkRequest_admitted hd hj

end RpcGateway.Http
