import Mathlib.Data.List.Perm.Basic
import Tsink.Error

/-! The first key that fits a token decides on it. The checks of one signature are parameters. -/

set_option autoImplicit false
namespace Tsink.Auth

structure AuthorizationError where
 status : ℕ
 code : String
 detail : Option String
 deriving DecidableEq

namespace AuthorizationError

def unauthorized (code:String) : AuthorizationError := ⟨401,code,none⟩

def withDetail (self:AuthorizationError) (detail:String) : AuthorizationError :=
 { self with detail := some detail }
end AuthorizationError

structure JwtHeader where
 alg : String
 kid : Option String

inductive OidcKeyRuntime
 | rsa (kid alg:Option String) (n e:List UInt8)
 | ecP256 (kid alg:Option String) (x y:List UInt8)
 | oct (kid alg:Option String) (secret:List UInt8)
 deriving DecidableEq

structure OidcProviderRuntime where
 name : String
 keys : List OidcKeyRuntime

/-- The checks of `ring`, each on a key, the signed data and the signature. -/
structure SignatureChecks where
 rsaPkcs1Sha256 : (n e signedData signature:List UInt8) → Bool
 ecdsaP256Sha256 : (publicKey signedData signature:List UInt8) → Bool
 hmacSha256 : (secret signedData signature:List UInt8) → Bool

namespace OidcKeyRuntime

def kid : OidcKeyRuntime → Option String
 | .rsa kid .. | .ecP256 kid .. | .oct kid .. => kid

def alg : OidcKeyRuntime → Option String
 | .rsa _ alg .. | .ecP256 _ alg .. | .oct _ alg .. => alg

def matchesKid (self:OidcKeyRuntime) : Option String → Bool
 | some requested => self.kid = some requested
 | none => true

def matchesAlg (self:OidcKeyRuntime) (requested:String) : Bool := self.alg.all (· = requested)

/-- The match on the kind of key, without a result for a key of another algorithm. -/
def verify (checks:SignatureChecks) (header:JwtHeader) (signedData signature:List UInt8) :
  OidcKeyRuntime → Option Bool
 | .rsa _ _ n e =>
  if header.alg = "RS256" then some (checks.rsaPkcs1Sha256 n e signedData signature) else none
 | .ecP256 _ _ x y =>
  if header.alg = "ES256" then some (checks.ecdsaP256Sha256 (0x04::x++y) signedData signature)
  else none
 | .oct _ _ secret =>
  if header.alg = "HS256" then some (checks.hmacSha256 secret signedData signature) else none
end OidcKeyRuntime
section Verify
variable (checks:SignatureChecks) (provider:OidcProviderRuntime) (header:JwtHeader)
 (signedData signature:List UInt8)

def verifyOidcSignatureFrom (attempted:Bool) : List OidcKeyRuntime → Except AuthorizationError Unit
 | [] =>
  if attempted then .error (.unauthorized "auth_oidc_signature_invalid")
  else
   let kid:=header.kid.getD ""
   .error ((AuthorizationError.unauthorized "auth_oidc_signing_key_missing").withDetail
    s!"no signing key matched alg='{header.alg}' kid='{kid}'")
 | key::keys =>
  if ! key.matchesKid header.kid then verifyOidcSignatureFrom attempted keys
  else if ! key.matchesAlg header.alg then verifyOidcSignatureFrom attempted keys
  else
   match key.verify checks header signedData signature with
   | none => verifyOidcSignatureFrom true keys
   | some true => .ok ()
   | some false => .error ((AuthorizationError.unauthorized "auth_oidc_signature_invalid").withDetail
     s!"signature verification failed for provider '{provider.name}'")

def verifyOidcSignature : Except AuthorizationError Unit :=
 verifyOidcSignatureFrom checks provider header signedData signature false provider.keys

/-- What a key says on a token that it matches. -/
def verdict (key:OidcKeyRuntime) : Option Bool :=
 if key.matchesKid header.kid && key.matchesAlg header.alg then
  key.verify checks header signedData signature
 else none

variable {checks provider header signedData signature}

theorem verifyOidcSignatureFrom_eq_ok {attempted:Bool} {keys:List OidcKeyRuntime} :
  verifyOidcSignatureFrom checks provider header signedData signature attempted keys = .ok () ↔
   keys.findSome? (verdict checks header signedData signature) = some true := by
 induction keys generalizing attempted with
 | nil => cases attempted <;> simp [verifyOidcSignatureFrom]
 | cons key keys ih =>
  rw [verifyOidcSignatureFrom,List.findSome?_cons,verdict]
  cases key.matchesKid header.kid with
  | false => simpa using ih
  | true =>
   cases key.matchesAlg header.alg with
   | false => simpa using ih
   | true =>
    rcases key.verify checks header signedData signature with _|_|_
    · simpa using ih
    · simp
    · simp

/-- The keys that match a token agree on it exactly when it is accepted in every order of the keys as
soon as one of them verifies it. -/
theorem accepted_iff_keys_agree :
  (∀ keys : List OidcKeyRuntime,keys.Perm provider.keys → (verifyOidcSignature checks
     { provider with keys } header signedData signature = .ok () ↔
    ∃ key∈provider.keys,verdict checks header signedData signature key = some true)) ↔
   ∀ key∈provider.keys,∀ other∈provider.keys,
    verdict checks header signedData signature key = some true →
     verdict checks header signedData signature other≠some false := by
 simp only [verifyOidcSignature,verifyOidcSignatureFrom_eq_ok]
 constructor
 · intro h key hk other ho ht hf
   have hfi:=(h _ (List.perm_cons_erase ho).symm).2 ⟨key,hk,ht⟩
   rw [List.findSome?_cons,hf] at hfi
   cases hfi
 · intro h keys hp
   constructor
   · intro hs
     obtain ⟨key,hk,ht⟩:=List.exists_of_findSome?_eq_some hs
     exact ⟨key,hp.mem_iff.1 hk,ht⟩
   · rintro ⟨key,hk,ht⟩
     obtain ⟨b,hb⟩:=Option.isSome_iff_exists.1 (List.findSome?_isSome_iff.2
      ⟨key,hp.mem_iff.2 hk,Option.isSome_of_eq_some ht⟩)
     obtain ⟨other,ho,hv⟩:=List.exists_of_findSome?_eq_some hb
     cases b with
     | true => exact hb
     | false => exact absurd hv (h key hk other (hp.mem_iff.1 ho) ht)
end Verify

theorem second_key_not_tried :
  let checks : SignatureChecks := ⟨fun _ _ _ _=>false,fun _ _ _=>false,fun secret _ mac=>secret = mac⟩
  let keys : List OidcKeyRuntime := [.oct none none [1],.oct none none [2]]
  (∃ key∈keys,verdict checks ⟨"HS256",none⟩ [] [2] key = some true) ∧
   verifyOidcSignature checks ⟨"idp",keys⟩ ⟨"HS256",none⟩ [] [2] =
    .error ⟨401,"auth_oidc_signature_invalid",
     some "signature verification failed for provider 'idp'"⟩ := by
 decide +kernel
end Tsink.Auth
