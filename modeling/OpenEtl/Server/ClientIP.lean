import OpenEtl.Core.Record
import OpenEtl.Lib.Json

/-!
# The address of a client (`server/security.go:90-132`)

| here | there |
| --- | --- |
| `splitHost` | the host `net.SplitHostPort` returns |
| `parseIP` | `net.ParseIP`; an address is its 16 bytes as a number, how IPv6 is written is a parameter |
| `arrive` | a request on its way through proxies, each of which appends its peer to `X-Forwarded-For` |

`clientIP` takes the first entry of `X-Forwarded-For`, which is the one the client wrote.
-/

namespace OpenEtl.Server

open List

def splitHost (addr : String) : Option String :=
  match addr.toList with
  | '[' :: t =>
    match t.dropWhile (· ≠ ']') with
    | ']' :: ':' :: port =>
      if ':' ∈ port ∨ '[' ∈ t ∨ ']' ∈ port then none else some (String.ofList (t.takeWhile (· ≠ ']')))
    | _ => none
  | t =>
    match t.dropWhile (· ≠ ':') with
    | ':' :: port =>
      if ':' ∈ port ∨ '[' ∈ t ∨ ']' ∈ t then none else some (String.ofList (t.takeWhile (· ≠ ':')))
    | _ => none

/-- Four numbers up to 255 without leading zeros; the address is `::ffff:a.b.c.d`. -/
def parseIPv4 (s : String) : Option Nat :=
  let fields := s.toList.splitOn '.'
  if fields.length = 4 && fields.all fun f => Json.validInt f && Nat.ofDigitChars 10 f 0 ≤ 255 then
    some (fields.foldl (fun n f => n * 256 + Nat.ofDigitChars 10 f 0) 0xffff)
  else none

structure Headers where
  /-- `X-Forwarded-For` -/
  forwardedFor : String := ""
  /-- `X-Real-IP` -/
  realIP : String := ""

structure Request extends Headers where
  remoteAddr : String

structure Security where
  parseIPv6 : String → Option Nat
  trustedProxyCIDRs : List (Nat → Bool)

namespace Security

variable (S : Security)

def parseIP (s : String) : Option Nat :=
  match s.toList.find? (· ∈ ['.', ':', '%']) with
  | some '.' => parseIPv4 s
  | some ':' => S.parseIPv6 s
  | _ => none

def isTrustedProxy (ip : Nat) : Bool := S.trustedProxyCIDRs.any (· ip)

def hostOf (remoteAddr : String) : String := (splitHost (trimSpace remoteAddr)).getD (trimSpace remoteAddr)

def trusts (remoteAddr : String) : Bool := (S.parseIP (hostOf remoteAddr)).any S.isTrustedProxy

def firstForwarded (forwarded : String) : String := trimSpace (String.ofList (forwarded.toList.takeWhile (· ≠ ',')))

def clientIP (r : Request) : String :=
  if S.trusts r.remoteAddr && r.forwardedFor ≠ "" && (S.parseIP (firstForwarded r.forwardedFor)).isSome then
    firstForwarded r.forwardedFor
  else if S.trusts r.remoteAddr && (S.parseIP (trimSpace r.realIP)).isSome then trimSpace r.realIP
  else if hostOf r.remoteAddr = "" then "unknown" else hostOf r.remoteAddr

/-- A proxy hands a request on, with the address of its peer behind those it was given. -/
def forward (peer : String) (h : Headers) : Headers :=
  { h with forwardedFor := if h.forwardedFor = "" then hostOf peer else h.forwardedFor ++ ", " ++ hostOf peer }

/-- The request of `client` as it comes out of a chain of proxies, given by the addresses they connect from. -/
def arrive : List String → String → Headers → Request
  | [], client, h => { h with remoteAddr := client }
  | p :: ps, client, h => arrive ps p (forward client h)

variable {S} {chain : List String} {h : Headers}

theorem firstForwarded_append (s t : String) : firstForwarded (s ++ ", " ++ t) = firstForwarded s := by
  unfold firstForwarded
  simp only [String.toList_append, append_assoc, takeWhile_append]
  split
  · rename_i hall
    have htake : s.toList.takeWhile (· ≠ ',') = s.toList := ( takeWhile_prefix _).eq_of_length hall
    rw [htake]
    simp
  · rfl

/-- What the client put first stays first, and the server sees the last proxy. -/
theorem arrive_spec : ∀ (chain : List String) (client : String) (h : Headers), h.forwardedFor ≠ "" →
    firstForwarded (arrive chain client h).forwardedFor = firstForwarded h.forwardedFor ∧
      (arrive chain client h).forwardedFor ≠ "" ∧ (arrive chain client h).remoteAddr = (client :: chain).getLast (by simp)
  | [], _, _, hne => ⟨rfl, hne, rfl⟩
  | p :: ps, client, h, hne => by
    have hf : (forward client h).forwardedFor = h.forwardedFor ++ ", " ++ hostOf client := if_neg hne
    obtain ⟨hfirst, hne', hlast⟩ := arrive_spec ps p (forward client h) (by simp [hf])
    refine ⟨hfirst.trans ?_, hne', hlast⟩
    rw [hf, firstForwarded_append]

/-- Behind a trusted proxy the client is whoever it says. -/
theorem clientIP_arrive (client : String) (hchain : ∀ p ∈ chain, S.trusts p = true) (hne : chain ≠ [])
    (hfor : h.forwardedFor ≠ "") (hip : (S.parseIP (firstForwarded h.forwardedFor)).isSome) :
    S.clientIP (arrive chain client h) = firstForwarded h.forwardedFor := by
  obtain ⟨hfirst, hfor', hlast⟩ := arrive_spec chain client h hfor
  have htrust : S.trusts (arrive chain client h).remoteAddr = true := by
    rw [hlast, getLast_cons hne]
    exact hchain _ (getLast_mem hne)
  simp [clientIP, htrust, hfor', hfirst, hip]

theorem clientIP_untrusted {r r' : Request} (haddr : r.remoteAddr = r'.remoteAddr) (hr : S.trusts r.remoteAddr = false) :
    S.clientIP r = S.clientIP r' := by
  unfold clientIP
  rw [← haddr, hr]
  simp

/-- **The address of an untrusted client** behind trusted proxies does not depend on the headers it sends exactly if there
are no proxies. -/
theorem client_address_unforged_iff {client : String} (hchain : ∀ p ∈ chain, S.trusts p = true)
    (hclient : S.trusts client = false) :
    (∀ h h', S.clientIP (arrive chain client h) = S.clientIP (arrive chain client h')) ↔ chain = [] := by
  refine ⟨fun hsame => by_contra fun hne => ?_, ?_⟩
  · have hone := clientIP_arrive client (h := ⟨"1.1.1.1", ""⟩) hchain hne (by decide) rfl
    have htwo := clientIP_arrive client (h := ⟨"2.2.2.2", ""⟩) hchain hne (by decide) rfl
    exact absurd (hone.symm.trans ((hsame _ _).trans htwo)) (by decide)
  · rintro rfl h h'
    exact clientIP_untrusted rfl hclient

def oneProxy : Security where
  parseIPv6 _ := none
  trustedProxyCIDRs := [fun ip => ip / 256 = 0xffff0a0000]

theorem client_address_unforged_direct :
    (∀ h h', oneProxy.clientIP (arrive [] "203.0.113.9:4000" h) = oneProxy.clientIP (arrive [] "203.0.113.9:4000" h')) ∧
      ¬∀ h h', oneProxy.clientIP (arrive ["10.0.0.1:80", "10.0.0.2:80"] "203.0.113.9:4000" h) =
        oneProxy.clientIP (arrive ["10.0.0.1:80", "10.0.0.2:80"] "203.0.113.9:4000" h') :=
  ⟨(client_address_unforged_iff (by simp) (by decide)).mpr rfl,
    mt (client_address_unforged_iff (by decide) (by decide)).mp (by simp)⟩

theorem client_address_forged : oneProxy.trusts "10.0.0.1:80" = true ∧ oneProxy.trusts "203.0.113.9:4000" = false ∧
    oneProxy.clientIP (arrive ["10.0.0.1:80"] "203.0.113.9:4000" {}) = "203.0.113.9" ∧
    oneProxy.clientIP (arrive ["10.0.0.1:80"] "203.0.113.9:4000" { forwardedFor := "1.1.1.1" }) = "1.1.1.1" := by
  decide

end Security

end OpenEtl.Server
