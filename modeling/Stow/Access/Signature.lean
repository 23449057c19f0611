import Mathlib.Data.List.Basic
import Stow.Lib.Json

/-! Signed requests: the service that signs them and the guard that checks the signature. -/
namespace Stow.Access.Signature

open Stow.Lib List

/-! ### Bytes -/

abbrev Byte := Fin 256

def hexDigit (d : Fin 16) : Char := hexChar d

def hexValue (c : Char) : Option (Fin 16) :=
  (finRange 16).find? fun d => hexDigit d = c || (hexDigit d).toUpper = c

def toHex (bytes : List Byte) : List Char :=
  bytes.flatMap fun b =>
    [hexDigit ⟨b.val / 16, by omega⟩, hexDigit ⟨b.val % 16, by omega⟩]

/-- Decoding stops at the first pair that is not one of digits. -/
def fromHex : List Char → List Byte
  | a :: b :: rest =>
    match hexValue a, hexValue b with
    | some x, some y => ⟨16 * x.val + y.val, by omega⟩ :: fromHex rest
    | _, _ => []
  | _ => []

theorem hexValue_hexDigit (d : Fin 16) : hexValue (hexDigit d) = some d := by
  revert d
  decide

theorem fromHex_toHex (bytes : List Byte) : fromHex (toHex bytes) = bytes := by
  induction bytes with
  | nil => rfl
  | cons b bytes ih =>
    have ht : toHex (b :: bytes) = hexDigit ⟨b.val / 16, by omega⟩ ::
      hexDigit ⟨b.val % 16, by omega⟩ :: toHex bytes := rfl
    rw [ht, fromHex, hexValue_hexDigit, hexValue_hexDigit]
    simp only [ih]
    congr 1
    apply Fin.ext
    show 16 * (b.val / 16) + b.val % 16 = b.val
    omega

/-! ### Requests -/

/-- The keyed digest. That no two texts have the same one is the idealisation of it. -/
structure Hmac where
  digest : List Char → List Char → List Byte
  digest_ne_nil : ∀ secret data, digest secret data ≠ []
  injective : ∀ secret, Function.Injective (digest secret)

/-- What the parser of the framework makes of a body. -/
inductive Body (ν : Type) where
  | absent
  | array (items : Items ν)
  | object (fields : Fields ν)

def Body.json {ν : Type} : Body ν → Option (Json ν)
  | .absent => none
  | .array items => some (.array items)
  | .object fields => some (.object fields)

structure SignedRequestHeaders where
  signature : List Char
  timestamp : List Char
  nonce : List Char

structure SignedRequest (ν : Type) where
  method : List Char
  path : List Char
  query : List Char
  signature : Option (List Char)
  timestamp : Option (List Char)
  nonce : Option (List Char)
  body : Body ν

structure SignatureConfig where
  secret : Option (List Char)
  toleranceMs : Option Nat

/-- A text that counts as given. -/
def given (text : Option (List Char)) : Option (List Char) := text.filter (· ≠ [])

def SignatureConfig.timestampToleranceMs (config : SignatureConfig) : Nat :=
  (config.toleranceMs.filter (· ≠ 0)).getD 300000

/-- White space, a sign and the digits up to the first other character. -/
def parseInt (text : List Char) : Option Int :=
  let text := text.dropWhile Char.isWhitespace
  let (negative, text) := match text with
    | '-' :: rest => (true, rest)
    | '+' :: rest => (false, rest)
    | rest => (false, rest)
  let digits := text.takeWhile Char.isDigit
  if digits = [] then none
  else
    let value : Int := Nat.ofDigitChars 10 digits 0
    some (if negative then -value else value)

section

variable {ν : Type} (hmac : Hmac) (format : NumberFormat ν)

def bodyString (body : Option (Json ν)) : List Char :=
  match body with
  | some value => if value.truthy format then value.stringify format else []
  | none => []

def canonicalString (method path timestamp nonce body : List Char) : List Char :=
  method ++ '\n' :: (path ++ '\n' :: (timestamp ++ '\n' :: (nonce ++ '\n' :: body)))

def computeHmacSignature (data secret : List Char) : List Char := toHex (hmac.digest secret data)

def canActivate (config : SignatureConfig) (requireSignature : Bool) (now : Nat)
    (request : SignedRequest ν) : Except String Bool :=
  if !requireSignature then .ok true
  else
    match given config.secret with
    | none => .error "Request signature validation not configured"
    | some secret =>
      match given request.signature, given request.timestamp, given request.nonce with
      | some signature, some timestamp, some nonce =>
        match parseInt timestamp with
        | none => .error "Invalid timestamp format"
        | some requestTime =>
          if config.timestampToleranceMs < ((now : Int) - requestTime).natAbs then
            .error "Request timestamp outside acceptable window"
          else if nonce.length < 16 then .error "Nonce must be at least 16 characters"
          else
            let body := bodyString format request.body.json
            let canonical := canonicalString request.method request.path timestamp nonce body
            if fromHex signature = fromHex (computeHmacSignature hmac canonical secret) then
              .ok true
            else .error "Invalid request signature"
      | _, _, _ =>
        .error "Missing required signature headers (x-signature, x-timestamp, x-nonce)"

/-- `nonceBytes` are the random bytes that are drawn. -/
def signRequest (secret : Option (List Char)) (now : Nat) (nonceBytes : List Byte)
    (method path : List Char) (body : Option (Json ν)) : Except String SignedRequestHeaders :=
  match given secret with
  | none => .error "REQUEST_SIGNATURE_SECRET not configured"
  | some secret =>
    let timestamp := Nat.toDigits 10 now
    let nonce := toHex nonceBytes
    let canonical := canonicalString method path timestamp nonce (bodyString format body)
    .ok ⟨computeHmacSignature hmac canonical secret, timestamp, nonce⟩

def verifySignature (secret method path timestamp nonce : List Char) (body : Option (Json ν))
    (signature : List Char) : Bool :=
  signature = computeHmacSignature hmac
    (canonicalString method path timestamp nonce (bodyString format body)) secret

end

variable {ν : Type} {hmac : Hmac} {format : NumberFormat ν} {config : SignatureConfig}
  {request other : SignedRequest ν} {now : Nat}

theorem append_mark_injective {mark : Char} {a b r u : List Char} (ha : mark ∉ a) (hb : mark ∉ b)
    (h : a ++ mark :: r = b ++ mark :: u) : a = b ∧ r = u := by
  induction a generalizing b with
  | nil =>
    cases b with
    | nil => exact ⟨rfl, (cons.inj h).2⟩
    | cons d b =>
      have hd := (cons.inj h).1
      exact absurd (hd ▸ mem_cons_self) hb
  | cons c a ih =>
    cases b with
    | nil =>
      have hc := (cons.inj h).1
      exact absurd (hc ▸ mem_cons_self) ha
    | cons d b =>
      obtain ⟨rfl, ht⟩ := cons.inj h
      obtain ⟨rfl, hr⟩ := ih (fun hm => ha (mem_cons_of_mem _ hm))
        (fun hm => hb (mem_cons_of_mem _ hm)) ht
      exact ⟨rfl, hr⟩

theorem computeHmacSignature_ne_nil (data secret : List Char) :
    computeHmacSignature hmac data secret ≠ [] := by
  intro hn
  apply hmac.digest_ne_nil secret data
  rw [← fromHex_toHex (hmac.digest secret data)]
  exact congrArg fromHex hn

theorem verifySignature_signRequest {secret : List Char} {signedAt : Nat} {nonceBytes : List Byte}
    {method path : List Char} {body : Option (Json ν)} {headers : SignedRequestHeaders}
    (hs : given config.secret = some secret)
    (hsg : signRequest hmac format config.secret signedAt nonceBytes method path body =
      .ok headers) :
    verifySignature hmac format secret method path headers.timestamp headers.nonce body
      headers.signature = true := by
  unfold signRequest at hsg
  simp only [hs, Except.ok.injEq] at hsg
  subst hsg
  simp [verifySignature]

/-- The four bytes of a character. -/
def charBytes (c : Char) : List Byte :=
  [16777216, 65536, 256, 1].map fun place => ⟨c.toNat / place % 256, Nat.mod_lt _ (by decide)⟩

theorem charBytes_injective {c d : Char} (h : charBytes c = charBytes d) : c = d := by
  have hlt (c : Char) : c.toNat < 4294967296 := c.val.toNat_lt
  have hc := hlt c
  have hd := hlt d
  simp only [charBytes, map_cons, map_nil, cons.injEq, Fin.mk.injEq] at h
  have hs : c.toNat = d.toNat := by omega
  rw [← Char.ofNat_toNat c, hs, Char.ofNat_toNat]

theorem flatMap_charBytes_injective {s t : List Char}
    (h : s.flatMap charBytes = t.flatMap charBytes) : s = t := by
  induction s generalizing t with
  | nil =>
    cases t with
    | nil => rfl
    | cons d t => cases h
  | cons c s ih =>
    cases t with
    | nil => cases h
    | cons d t =>
      rw [flatMap_cons, flatMap_cons] at h
      obtain ⟨hh, ht⟩ := append_inj h rfl
      rw [charBytes_injective hh, ih ht]

/-- A digest that is the text itself. -/
def plainHmac : Hmac where
  digest _ data := 0 :: data.flatMap charBytes
  digest_ne_nil _ _ := cons_ne_nil _ _
  injective _ _ _ h := flatMap_charBytes_injective (cons.inj h).2

def natFormat : NumberFormat Nat where
  print := Nat.toDigits 10
  zero := (· == 0)
  print_ne_nil _ := Nat.toDigits_ne_nil
  print_numeric n c hc := by
    have hd : c.isDigit = true := Nat.isDigit_of_mem_toDigits (by decide) (by decide) hc
    simp [numeric, hd]
  print_injective m n h := by
    rw [← Nat.ofDigitChars_toDigits (b := 10) (n := m) (by decide) (by decide), h,
      Nat.ofDigitChars_toDigits (by decide) (by decide)]

def signatureConfig : SignatureConfig := ⟨some "secret".toList, none⟩

/-- A withdrawal that the service has signed at time 5, with the given query parameters. -/
def withdrawal (query : String) : SignedRequest Nat :=
  let path := "/api/v1/withdrawals".toList
  let body : Body Nat := .object (.cons "amount".toList (.number 5) .nil)
  match signRequest plainHmac natFormat signatureConfig.secret 5 (replicate 32 7)
    "POST".toList path body.json with
  | .ok headers => ⟨"POST".toList, path, query.toList, some headers.signature,
      some headers.timestamp, some headers.nonce, body⟩
  | .error _ => ⟨[], [], [], none, none, none, .absent⟩

end Stow.Access.Signature
