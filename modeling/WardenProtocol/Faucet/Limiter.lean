import Mathlib.Algebra.Ring.Int.Defs
import Mathlib.Logic.Function.Basic
import Mathlib.Order.Lattice
import WardenProtocol.GoString

namespace WardenProtocol.Faucet
set_option autoImplicit true

/-- A `time.Time`, in nanoseconds since its zero value, the first day of year one. -/
abbrev Time := Int

/-- What a clock shows, given the nanoseconds since 1970. -/
def clock (n : Nat) : Int := 62135596800 * 1000000000 + n

/-- `t.Sub(u)`, which is as long as a duration can be where the difference is longer. -/
def Sub (t u : Int) : Int := max (-2 ^ 63) (min (2 ^ 63 - 1) (t - u))

structure RateLimitError where
  Key : GoString
  Wait : Int
  deriving DecidableEq

/-- The times a key was last let through. It is the zero time for a key that never was. -/
structure Limiter where
  cooldown : Int64
  last : GoString → Time

namespace Limiter

/-- A key is refused at this time. -/
def refuses (l : Limiter) (now : Time) (key : GoString) : Prop :=
  Sub now (l.last key) < l.cooldown.toInt

instance (l : Limiter) (now : Time) (key : GoString) : Decidable (l.refuses now key) :=
  inferInstanceAs (Decidable (Sub now (l.last key) < l.cooldown.toInt))

/-- `Allow`, given what the clock shows when the key is checked, and then once more when it is
recorded or the wait is counted. -/
def Allow (l : Limiter) (check record : Time) (key : GoString) :
    Except RateLimitError Unit × Limiter :=
  if l.refuses check key then
    (.error ⟨key, Sub (l.last key + l.cooldown.toInt) record⟩, l)
  else (.ok (), { l with last := Function.update l.last key record })

def Reset (l : Limiter) (key : GoString) : Limiter :=
  { l with last := Function.update l.last key 0 }

end Limiter

/-- What comes of `<-e.Client.Send(address)`: a channel that is nil gives nothing. -/
inductive Sending
  | sent
  | failed (err : GoString)
  | waiting
  deriving DecidableEq

/-- A request, with what `getIP` and the check of its captcha come to, and its sending. -/
structure Request where
  address : GoString
  remoteIP : Except GoString GoString
  captcha : Option GoString
  sending : Sending

inductive Response
  | redirect (path : GoString)
  | badRequest (msg : GoString)
  | internalServerError (msg : GoString)
  | successpage
  | waiting
  deriving DecidableEq

/-- What the clock shows in the course of a request, since 1970. -/
structure Readings where
  checkIP : Nat
  recordIP : Nat
  checkAddress : Nat
  recordAddress : Nat
  done : Nat
  ordered : checkIP ≤ recordIP ∧ recordIP ≤ checkAddress ∧ checkAddress ≤ recordAddress ∧
    recordAddress ≤ done

/-- The limiters, and what the handler takes from its libraries: the decoding of addresses and the
text of a duration. -/
structure Env where
  AddressLimiter : Limiter
  IPLimiter : Limiter
  DecodeAndConvert : GoString → Except GoString (GoString × List UInt8)
  prettyDuration : Int → GoString

inductive ValidateError
  | rateLimit (err : RateLimitError)
  | other (text : GoString)

/-- The format of an address that is asked for. -/
def wellFormed (e : Env) (addr : GoString) : Except GoString Unit :=
  match e.DecodeAndConvert addr with
  | .error err => .error (str "invalid address: " ++ err)
  | .ok (pref, _) =>
    if pref ≠ str "warden" then .error (str "invalid address prefix: " ++ pref) else .ok ()

def validateAddress (e : Env) (check record : Time) (addr : GoString) :
    Except ValidateError Unit × Env :=
  match wellFormed e addr with
  | .error text => (.error (.other text), e)
  | .ok () =>
    let (result, l) := e.AddressLimiter.Allow check record addr
    (result.mapError .rateLimit, { e with AddressLimiter := l })

def validateIP (e : Env) (check record : Time) (remoteIP : GoString) :
    Except ValidateError Unit × Env :=
  let (result, l) := e.IPLimiter.Allow check record remoteIP
  (result.mapError .rateLimit, { e with IPLimiter := l })

def limitedText (e : Env) (wait : Int) (whose : GoString) : GoString :=
  str "Error: your " ++ whose ++ str " is rate limited. Wait " ++ e.prettyDuration wait ++
    str " before trying again."

def invalidIP (e : Env) : ValidateError → Response
  | .rateLimit err => .badRequest (limitedText e err.Wait (str "IP address"))
  | .other _ =>
    .badRequest (str "Error: your IP can't request tokens at this time. Try again later.")

def invalidAddress (e : Env) : ValidateError → Response
  | .rateLimit err => .badRequest (limitedText e err.Wait (str "address"))
  | .other _ => .badRequest (str "Error: your address is invalid. Try again.")

/-- The end of a request whose checks are passed. -/
def submitSend (e : Env) (r : Request) (remoteIP : GoString) : Response × Env :=
  match r.sending with
  | .waiting => (.waiting, e)
  | .failed _ =>
    (.internalServerError
        (str "Error: an unexpected error occurred while sending the transaction."),
      { e with
        IPLimiter := e.IPLimiter.Reset remoteIP
        AddressLimiter := e.AddressLimiter.Reset r.address })
  | .sent => (.successpage, e)

def submitHandler (e : Env) (r : Request) (t : Readings) : Response × Env :=
  if r.address = [] then (.redirect (str "/"), e)
  else match r.remoteIP with
    | .error _ => (.badRequest (str "Error: couldn't fetch your remote IP address."), e)
    | .ok remoteIP =>
      match validateIP e (clock t.checkIP) (clock t.recordIP) remoteIP with
      | (.error err, e) => (invalidIP e err, e)
      | (.ok (), e) =>
        match validateAddress e (clock t.checkAddress) (clock t.recordAddress) r.address with
        | (.error err, e) => (invalidAddress e err, e)
        | (.ok (), e) =>
          match r.captcha with
          | some _ => (.badRequest (str "Error: captcha failed."), e)
          | none => submitSend e r remoteIP

end WardenProtocol.Faucet
