import OpenEtl.Lib.ConfigTree

/-!
# What an export holds of secrets

`ExportJSON` (storage/backup/export.go) looks at every row of the connections and settings before it writes it, and
stops at a plaintext secret. Pipelines and their versions are written as they are stored.
-/

namespace OpenEtl.Export

open ConfigTree

abbrev Text := List UInt8

/-- A text that is taken for encrypted: `specEnvelopePrefix` is `enc:`. -/
def isEnvelope (s : Text) : Bool := [101, 110, 99, 58].isPrefixOf s

structure ConnectionEntry where
  name : String
  kind : String
  type : String
  config : ConfigMap

/-- The rows that can hold secrets: specs of pipelines and of their versions, connections, settings. -/
structure Tables where
  pipelines : List Text
  versions : List Text
  connections : List ConnectionEntry
  settings : List (String × Text)

inductive Err
  | plaintextSecrets
  | other (text : String)
  deriving DecidableEq

section

variable (isSecretField : String → String → String → Bool)

/-- `plaintextConfigFindings` (adapters.go:943-972). -/
def plaintextConfigFindings (kind typ : String) (cfg : ConfigMap) : List (Leaf Scalar) :=
  (leavesAll true [] cfg).filter fun l =>
    match l.value with
    | .str s => s != [] && !isEnvelope s && isSecretField kind typ l.key
    | _ => false

/-- `ConnectionHasPlaintextSecrets` (adapters.go:935-937). -/
def connectionHasPlaintextSecrets (c : ConnectionEntry) : Bool :=
  !(plaintextConfigFindings isSecretField c.kind c.type c.config).isEmpty

/-- `SettingHasPlaintextSecret` (adapters.go:939-941). -/
def settingHasPlaintextSecret (key : String) (value : Text) : Bool :=
  value != [] && !isEnvelope value && isSecretField "" "" key

/-- `ExportJSON`; `rest` is what becomes of the other tables, the artifacts, the inventory and the writing. -/
def exportJSON (rest : Except Err Unit) (db : Tables) : Except Err Tables :=
  if db.connections.any (connectionHasPlaintextSecrets isSecretField) ||
      db.settings.any fun s => settingHasPlaintextSecret isSecretField s.1 s.2 then .error .plaintextSecrets
  else rest.map fun _ => db

end

/-! ## Secret values -/

section

variable (secret : String → Bool)

mutual
/-- The values under secret keys, each with whether the check gets to it. -/
def secretValues (seen : Bool) : ConfigValue → List (Bool × ConfigValue)
  | .leaf _ => []
  | .node m cs => secretValuesAll seen m cs

def secretValuesAll (seen inMap : Bool) : ConfigMap → List (Bool × ConfigValue)
  | [] => []
  | (k, v) :: cs => (if inMap && secret k then [(seen, v)] else []) ++ secretValues (seen && (inMap || v.isMap)) v ++
      secretValuesAll seen inMap cs
end

/-- A value that shows: neither null, nor the empty text, nor encrypted. -/
def exposed : ConfigValue → Bool
  | .leaf .null => false
  | .leaf (.str s) => s != [] && !isEnvelope s
  | _ => true

def isText : ConfigValue → Bool
  | .leaf (.str _) => true
  | _ => false

def Hides (cfg : ConfigMap) : Prop := ∀ p ∈ secretValuesAll secret true true cfg, exposed p.2 = false

variable {secret}

/-- The texts under secret keys that the check gets to. -/
theorem secretValuesAll_text (s : Text) : ∀ (path : Path) (seen inMap : Bool) (cs : ConfigMap),
    (true, .leaf (.str s)) ∈ secretValuesAll secret seen inMap cs ↔
      seen = true ∧ ∃ l ∈ leavesAll inMap path cs, secret l.key = true ∧ l.value = .str s
  | _, _, _, [] => by simp [secretValuesAll, leavesAll]
  | path, seen, inMap, (k, .leaf a) :: cs => by
    have hcs := secretValuesAll_text s path seen inMap cs
    cases inMap <;> simp [secretValuesAll, secretValues, leavesAll, leaves, isMap, hcs]
    grind
  | path, seen, inMap, (k, .node m vs) :: cs => by
    have hvs := secretValuesAll_text s ((k, cs.length) :: path) (seen && (inMap || m)) m vs
    have hcs := secretValuesAll_text s path seen inMap cs
    simp only [secretValuesAll, secretValues, leavesAll, leaves, isMap, List.mem_append, hvs, hcs]
    cases inMap <;> cases m <;> cases seen <;> simp [or_and_right, exists_or]

end

section

variable {isSecretField : String → String → String → Bool}

theorem hides_iff {kind typ : String} {cfg : ConfigMap} (h : plaintextConfigFindings isSecretField kind typ cfg = []) :
    Hides (isSecretField kind typ) cfg ↔
      ∀ p ∈ secretValuesAll (isSecretField kind typ) true true cfg, (p.1 && isText p.2) = false → exposed p.2 = false := by
  rw [plaintextConfigFindings, List.filter_eq_nil_iff] at h
  refine forall₂_congr fun p hp => ⟨fun hno _ => hno, fun hno => ?_⟩
  obtain ⟨seen, v⟩ := p
  by_cases hlooked : (seen && isText v) = true
  · obtain ⟨rfl, htext⟩ := Bool.and_eq_true_iff.mp hlooked
    unfold isText at htext
    split at htext
    · rename_i s
      obtain ⟨-, l, hl, hsecret, hvalue⟩ := (secretValuesAll_text s [] true true cfg).mp hp
      simpa [exposed, hvalue, hsecret] using h l hl
    · simp at htext
  · exact hno (by simpa using hlooked)

variable (isSecretField) in
/-- No secret field of a document is in plain text; `connectors` are those of a spec that is not encrypted. -/
def NoPlaintext (connectors : Text → List ConnectionEntry) (out : Tables) : Prop :=
  (∀ c ∈ out.connections, Hides (isSecretField c.kind c.type) c.config) ∧
    (∀ s ∈ out.settings, isSecretField "" "" s.1 = true → s.2 = [] ∨ isEnvelope s.2 = true) ∧
    ∀ spec ∈ out.pipelines ++ out.versions, isEnvelope spec = true ∨
      ∀ c ∈ connectors spec, Hides (isSecretField c.kind c.type) c.config

/-- **An export holds no plaintext secret** exactly if there is none in what is not looked at. -/
theorem export_hides_secrets_iff (connectors : Text → List ConnectionEntry) (rest : Except Err Unit) (db : Tables)
    {out : Tables} (h : exportJSON isSecretField rest db = .ok out) :
    NoPlaintext isSecretField connectors out ↔
      (∀ c ∈ db.connections, ∀ p ∈ secretValuesAll (isSecretField c.kind c.type) true true c.config,
        (p.1 && isText p.2) = false → exposed p.2 = false) ∧
      ∀ spec ∈ db.pipelines ++ db.versions, isEnvelope spec = true ∨
        ∀ c ∈ connectors spec, Hides (isSecretField c.kind c.type) c.config := by
  unfold exportJSON at h
  split at h
  · simp at h
  · rename_i hnone
    obtain ⟨-, -, rfl⟩ := map_eq_ok.mp h
    rw [Bool.or_eq_true, not_or] at hnone
    have hconn : ∀ c ∈ db.connections, plaintextConfigFindings isSecretField c.kind c.type c.config = [] := by
      simpa [connectionHasPlaintextSecrets] using hnone.1
    have hset : ∀ s ∈ db.settings, isSecretField "" "" s.1 = true → s.2 = [] ∨ isEnvelope s.2 = true := by
      intro s hs hsecret
      by_cases hv : s.2 = []
      · exact .inl hv
      · have hno := List.any_eq_false.mp (eq_false_of_ne_true hnone.2) s hs
        simpa [settingHasPlaintextSecret, hsecret, hv] using hno
    rw [NoPlaintext, and_iff_right hset, forall₂_congr fun c hc => hides_iff (hconn c hc)]

def passwords (_ _ field : String) : Bool := field == "password"

/-- A spec, and a connection with an encrypted password and another one in a list of lists. -/
def stored (spec password : Text) : Tables :=
  { pipelines := [spec], versions := [], settings := []
    connections := [⟨"db", "source", "mysql", [("password", .leaf (.str [101, 110, 99, 58, 49])),
      ("hosts", .list [.list [.map [("password", .leaf (.str password))]]])]⟩] }

theorem encrypted_exported : NoPlaintext passwords (fun _ => []) (stored [101, 110, 99, 58, 50] []) :=
  (export_hides_secrets_iff _ (.ok ()) (stored [101, 110, 99, 58, 50] []) rfl).mpr (by unfold Hides; decide)

def plainSpec : Text := "sink: \x7btype: mysql, config: \x7bpassword: p\x7d\x7d".toUTF8.toList

/-- What a YAML parser finds in that spec. -/
def connectorsOf (spec : Text) : List ConnectionEntry :=
  if spec = plainSpec then [⟨"", "sink", "mysql", [("password", .leaf (.str [112]))]⟩] else []

/-- A spec in plain text, or a password in a list of lists, is exported. -/
theorem plaintext_exported :
    (exportJSON passwords (.ok ()) (stored plainSpec []) = .ok (stored plainSpec []) ∧
      ¬NoPlaintext passwords connectorsOf (stored plainSpec [])) ∧
    exportJSON passwords (.ok ()) (stored [] [112]) = .ok (stored [] [112]) ∧
      ¬NoPlaintext passwords connectorsOf (stored [] [112]) :=
  ⟨⟨rfl, by unfold NoPlaintext Hides; decide +kernel⟩, rfl, by unfold NoPlaintext Hides; decide +kernel⟩

end

end OpenEtl.Export
