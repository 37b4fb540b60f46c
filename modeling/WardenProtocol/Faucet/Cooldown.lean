import WardenProtocol.Faucet.Limiter

namespace WardenProtocol.Faucet
set_option autoImplicit true

/-- The request is turned away, or its sending fails. -/
def Response.fails : Response → Prop
  | .redirect _ => True
  | .badRequest _ => True
  | .internalServerError _ => True
  | .successpage => False
  | .waiting => False

/-- Two limiters refuse the same keys from some time on. -/
def SameFrom (done : Nat) (l l' : Limiter) : Prop :=
  ∀ key n, done ≤ n → (l'.refuses (clock n) key ↔ l.refuses (clock n) key)

/-- The cooldown of what was recorded has passed. -/
def Limiter.past (l : Limiter) (record done : Nat) : Prop :=
  l.cooldown.toInt ≤ Sub (clock done) (clock record)

/-- The address is of the format, and not refused by its limiter. -/
def AddressPasses (e : Env) (r : Request) (t : Readings) : Prop :=
  wellFormed e r.address = .ok () ∧ ¬ e.AddressLimiter.refuses (clock t.checkAddress) r.address

/-- A request that is turned away after its IP was let through, by the address or by the captcha,
takes until the cooldown of what was recorded for it has passed. -/
def Outlasts (e : Env) (r : Request) (t : Readings) : Prop :=
  ∀ remoteIP, r.address ≠ [] → r.remoteIP = .ok remoteIP →
    ¬ e.IPLimiter.refuses (clock t.checkIP) remoteIP →
    (¬ AddressPasses e r t ∨ r.captcha ≠ none → e.IPLimiter.past t.recordIP t.done) ∧
    (AddressPasses e r t → r.captcha ≠ none → e.AddressLimiter.past t.recordAddress t.done)

theorem clock_mono {m n : Nat} (h : m ≤ n) : clock m ≤ clock n := by
  rw [clock, clock]
  omega

theorem Sub_mono {t t' : Int} (h : t ≤ t') (u : Int) : Sub t u ≤ Sub t' u := by
  rw [Sub, Sub]
  omega

theorem Sub_zero (n : Nat) : Sub (clock n) 0 = 2 ^ 63 - 1 := by
  rw [Sub, clock]
  omega

namespace Limiter

def record (l : Limiter) (key : GoString) (time : Nat) : Limiter :=
  { l with last := Function.update l.last key (clock time) }

theorem Allow_refused {l : Limiter} (h : l.refuses check key) (time : Time) :
    l.Allow check time key = (.error ⟨key, Sub (l.last key + l.cooldown.toInt) time⟩, l) :=
  if_pos h

theorem Allow_allowed {l : Limiter} (h : ¬ l.refuses check key) (time : Nat) :
    l.Allow check (clock time) key = (.ok (), l.record key time) := if_neg h

theorem refuses_later {l : Limiter} {m n : Nat} (hle : m ≤ n) (h : ¬ l.refuses (clock m) key) :
    ¬ l.refuses (clock n) key := by
  have hmono := Sub_mono (clock_mono hle) (l.last key)
  rw [refuses, Int.not_lt] at h ⊢
  exact Int.le_trans h hmono

theorem refuses_same (l : Limiter) (key : GoString) (time now : Time) :
    ({ l with last := Function.update l.last key time } : Limiter).refuses now key ↔
      Sub now time < l.cooldown.toInt := by
  change Sub now (Function.update l.last key time key) < _ ↔ _
  rw [Function.update_self]

theorem refuses_other {l : Limiter} (h : k ≠ key) (time now : Time) :
    ({ l with last := Function.update l.last key time } : Limiter).refuses now k ↔
      l.refuses now k := by
  change Sub now (Function.update l.last key time k) < _ ↔ _
  rw [Function.update_of_ne h]
  rfl

theorem same_record {l : Limiter} {check time done : Nat} (hcheck : check ≤ time)
    (htime : time ≤ done) (h : ¬ l.refuses (clock check) key) :
    SameFrom done l (l.record key time) ↔ l.past time done := by
  have hold {n : Nat} (hn : done ≤ n) : ¬ l.refuses (clock n) key :=
    refuses_later (by omega) h
  constructor
  · intro hsame
    have hnew := (hsame key done (Nat.le_refl done)).not.2 (hold (Nat.le_refl done))
    rw [record, refuses_same, Int.not_lt] at hnew
    exact hnew
  · intro hpast k n hn
    by_cases hk : k = key
    · subst hk
      have hlater := Sub_mono (clock_mono hn) (clock time)
      have hnew : ¬ (l.record k time).refuses (clock n) k := by
        rw [record, refuses_same, Int.not_lt]
        exact Int.le_trans hpast hlater
      exact iff_of_false hnew (hold hn)
    · exact refuses_other hk _ _

theorem same_reset {l : Limiter} {check time done : Nat} (hcheck : check ≤ done)
    (h : ¬ l.refuses (clock check) key) : SameFrom done l ((l.record key time).Reset key) := by
  intro k n hn
  by_cases hk : k = key
  · subst hk
    have hold : ¬ l.refuses (clock n) k := refuses_later (by omega) h
    have hnew : ¬ ((l.record k time).Reset k).refuses (clock n) k := by
      have hmax := Int64.toInt_lt l.cooldown
      rw [Reset, refuses_same, Sub_zero, Int.not_lt]
      change l.cooldown.toInt ≤ _
      omega
    exact iff_of_false hnew hold
  · rw [Reset, refuses_other hk]
    exact refuses_other hk _ _

end Limiter

theorem SameFrom.refl (done : Nat) (l : Limiter) : SameFrom done l l := fun _ _ _ => Iff.rfl

section Requests

variable {e : Env} {r : Request} {t : Readings}

theorem validateIP_refused (h : e.IPLimiter.refuses check ip) (time : Time) :
    ∃ err, validateIP e check time ip = (.error err, e) := by
  rw [validateIP, Limiter.Allow_refused h]
  exact ⟨_, rfl⟩

theorem validateIP_allowed (h : ¬ e.IPLimiter.refuses check ip) (time : Nat) :
    validateIP e check (clock time) ip =
      (.ok (), { e with IPLimiter := e.IPLimiter.record ip time }) := by
  rw [validateIP, Limiter.Allow_allowed h]
  rfl

theorem validateAddress_fails (check time : Time)
    (h : wellFormed e addr = .ok () → e.AddressLimiter.refuses check addr) :
    ∃ err, validateAddress e check time addr = (.error err, e) := by
  rw [validateAddress]
  cases hformat : wellFormed e addr with
  | error text => exact ⟨_, rfl⟩
  | ok =>
    simp only [Limiter.Allow_refused (h hformat)]
    exact ⟨_, rfl⟩

theorem validateAddress_passes (hformat : wellFormed e addr = .ok ())
    (h : ¬ e.AddressLimiter.refuses check addr) (time : Nat) :
    validateAddress e check (clock time) addr =
      (.ok (), { e with AddressLimiter := e.AddressLimiter.record addr time }) := by
  rw [validateAddress, hformat]
  simp only [Limiter.Allow_allowed h]
  rfl

theorem invalidAddress_fails (e : Env) (err : ValidateError) : (invalidAddress e err).fails := by
  cases err <;> trivial

/-- A request that fails leaves no trace, unless its IP was let through and then the address or the
captcha turned it away within the cooldown. -/
theorem submitHandler_leaves (e : Env) (r : Request) (t : Readings) :
    ((submitHandler e r t).1.fails →
      SameFrom t.done e.IPLimiter (submitHandler e r t).2.IPLimiter ∧
      SameFrom t.done e.AddressLimiter (submitHandler e r t).2.AddressLimiter) ↔
    Outlasts e r t := by
  obtain ⟨hcheckIP, hrecordIP, hcheckAddress, hdone⟩ := t.ordered
  rw [submitHandler, Outlasts]
  by_cases haddress : r.address = []
  · rw [if_pos haddress]
    exact iff_of_true (fun _ => ⟨.refl _ _, .refl _ _⟩) fun _ h => absurd haddress h
  · rw [if_neg haddress]
    cases hremote : r.remoteIP with
    | error text =>
      refine iff_of_true (fun _ => ⟨.refl _ _, .refl _ _⟩) ?_
      intro remoteIP _ hip
      cases hip
    | ok remoteIP =>
      by_cases hip : e.IPLimiter.refuses (clock t.checkIP) remoteIP
      · obtain ⟨err, herr⟩ := validateIP_refused hip (clock t.recordIP)
        simp only [herr]
        refine iff_of_true (fun _ => ⟨.refl _ _, .refl _ _⟩) ?_
        intro remoteIP' _ heq hnot
        cases heq
        exact absurd hip hnot
      · have hsameIP := Limiter.same_record hcheckIP (by omega : t.recordIP ≤ t.done) hip
        simp only [validateIP_allowed hip]
        by_cases hpasses : AddressPasses e r t
        · obtain ⟨hformat, hallowed⟩ := hpasses
          have hsameAddress :=
            Limiter.same_record hcheckAddress (by omega : t.recordAddress ≤ t.done) hallowed
          have hvalid := validateAddress_passes
            (e := { e with IPLimiter := e.IPLimiter.record remoteIP t.recordIP }) hformat hallowed
            t.recordAddress
          simp only [hvalid]
          cases hcaptcha : r.captcha with
          | some text =>
            constructor
            · intro h remoteIP' _ heq _
              obtain ⟨hip', haddr'⟩ := h trivial
              exact ⟨fun _ => hsameIP.1 hip', fun _ _ => hsameAddress.1 haddr'⟩
            · intro h _
              obtain ⟨hip', haddr'⟩ := h remoteIP haddress rfl hip
              exact ⟨hsameIP.2 (hip' (Or.inr (Option.some_ne_none text))),
                hsameAddress.2 (haddr' ⟨hformat, hallowed⟩ (Option.some_ne_none text))⟩
          | none =>
            have houtlasts : ∀ remoteIP', r.address ≠ [] →
                (Except.ok remoteIP : Except GoString GoString) = .ok remoteIP' →
                ¬ e.IPLimiter.refuses (clock t.checkIP) remoteIP' →
                (¬ AddressPasses e r t ∨ (none : Option GoString) ≠ none →
                  e.IPLimiter.past t.recordIP t.done) ∧
                (AddressPasses e r t → (none : Option GoString) ≠ none →
                  e.AddressLimiter.past t.recordAddress t.done) := by
              intro _ _ _ _
              refine ⟨?_, fun _ hne => absurd rfl hne⟩
              rintro (hnot | hne)
              · exact absurd ⟨hformat, hallowed⟩ hnot
              · exact absurd rfl hne
            refine iff_of_true ?_ houtlasts
            rw [submitSend]
            cases r.sending with
            | sent => exact False.elim
            | waiting => exact False.elim
            | failed text =>
              intro _
              exact ⟨Limiter.same_reset (by omega) hip, Limiter.same_reset (by omega) hallowed⟩
        · have hrefused : wellFormed e r.address = .ok () →
              e.AddressLimiter.refuses (clock t.checkAddress) r.address := by
            intro hformat
            by_contra hallowed
            exact hpasses ⟨hformat, hallowed⟩
          obtain ⟨err, herr⟩ := validateAddress_fails
            (e := { e with IPLimiter := e.IPLimiter.record remoteIP t.recordIP })
            (clock t.checkAddress) (clock t.recordAddress) hrefused
          simp only [herr]
          constructor
          · intro h remoteIP' _ heq _
            obtain ⟨hip', -⟩ := h (invalidAddress_fails _ err)
            exact ⟨fun _ => hsameIP.1 hip', fun hp => absurd hp hpasses⟩
          · intro h _
            obtain ⟨hip', -⟩ := h remoteIP haddress rfl hip
            exact ⟨hsameIP.2 (hip' (Or.inl hpasses)), .refl _ _⟩

/-- Limiters that recorded nothing yet, with a cooldown of twelve hours. -/
def exampleEnv : Env where
  AddressLimiter := ⟨43200000000000, fun _ => 0⟩
  IPLimiter := ⟨43200000000000, fun _ => 0⟩
  DecodeAndConvert := fun addr =>
    if hasPrefix addr (str "warden1") then .ok (str "warden", [])
    else .error (str "decoding bech32 failed")
  prettyDuration := fun _ => str "12h0m0s"

def exampleReadings : Readings := ⟨1000, 1001, 1002, 1003, 2000, by decide⟩

def mistyped : Request := ⟨str "wardne1abc", .ok (str "203.0.113.7"), none, .sent⟩

def unverified : Request :=
  ⟨str "warden1abc", .ok (str "203.0.113.7"), some (str "verification failed"), .sent⟩

/-- A mistyped address locks the IP out, and a failed captcha the IP and the address. -/
theorem submitHandler_locks :
    ((submitHandler exampleEnv mistyped exampleReadings).1.fails ∧
      ¬ SameFrom 2000 exampleEnv.IPLimiter
        (submitHandler exampleEnv mistyped exampleReadings).2.IPLimiter) ∧
    (submitHandler exampleEnv unverified exampleReadings).1.fails ∧
      ¬ SameFrom 2000 exampleEnv.IPLimiter
        (submitHandler exampleEnv unverified exampleReadings).2.IPLimiter ∧
      ¬ SameFrom 2000 exampleEnv.AddressLimiter
        (submitHandler exampleEnv unverified exampleReadings).2.AddressLimiter := by
  refine ⟨⟨trivial, ?_⟩, trivial, ?_, ?_⟩
  · intro h
    have hlocked := (h (str "203.0.113.7") 2000 (Nat.le_refl _)).1 (by decide)
    exact absurd hlocked (by decide)
  · intro h
    have hlocked := (h (str "203.0.113.7") 2000 (Nat.le_refl _)).1 (by decide)
    exact absurd hlocked (by decide)
  · intro h
    have hlocked := (h (str "warden1abc") 2000 (Nat.le_refl _)).1 (by decide)
    exact absurd hlocked (by decide)

end Requests

end WardenProtocol.Faucet
