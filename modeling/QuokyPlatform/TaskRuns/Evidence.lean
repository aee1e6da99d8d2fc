import QuokyPlatform.Foundations.Date
import QuokyPlatform.Foundations.Except
import QuokyPlatform.Foundations.Text

/-! # Containment evidence

The bounded audit a continuation attempt stores under its run: an immutable binding and an optional
observation after the attempt. A stored value is trusted only as far as its projection accepts it
for the exact run. A value is read at its type here: an object with exactly the keys of an audit,
whose enumerated members are enumerated values, or anything else, which is never accepted. -/

namespace QuokyPlatform.TaskRuns

set_option autoImplicit false
set_option maxHeartbeats 250000

inductive ContainmentRuntimeFamily
  | none
  | containerNoNetwork
  | vmNoNic
deriving DecidableEq, Repr

inductive ContainmentPreflightDisposition
  | notPerformed
  | verified
  | preflightFailed
  | unavailable
deriving DecidableEq, Repr

inductive ContainmentModelIntegrityStatus
  | verifiedAtBind
  | matched
  | mismatch
  | notReverified
  | unavailable
deriving DecidableEq, Repr

inductive ContainmentAuditFailureCode
  | containmentUnavailable
  | containmentConfigurationInvalid
  | containmentPreflightFailed
  | containmentBindFailed
  | modelMissing
  | modelDigestMismatch
  | privateDaemonStartFailed
  | privateDaemonNotReady
  | containmentEvidenceConflict
  | containmentFailure
  | modelDownloadDetected
deriving DecidableEq, Repr

structure ContainmentBindingEvidence where
  providerBindingDigest : Option String
  securityProfileId : Option String
  instanceIdentityDigest : Option String
  channelAVerifierVersion : Option String
  channelBVerifierVersion : Option String
  executionId : String
  taskRunId : String
  containmentPolicyId : String
  containmentPolicyVersion : String
  containmentPolicyDigest : String
  containmentBindingDigest : String
  providerId : String
  modelId : String
  modelDigest : String
  imageDigest : String
  runtimeFamily : ContainmentRuntimeFamily
  runtimeVersion : String
  securityProfileDigest : String
  modelMountIdentityDigest : String
  verifierVersion : String
  channelAResultDigest : String
  channelBResultDigest : String
  preflightDisposition : ContainmentPreflightDisposition
  modelIntegrityStatus : ContainmentModelIntegrityStatus
deriving DecidableEq, Repr

structure ContainmentPostAttemptEvidence where
  attemptBoundaryCrossed : Bool
  postAttemptModelIntegrity : ContainmentModelIntegrityStatus
  failureCode : Option ContainmentAuditFailureCode
deriving DecidableEq, Repr

structure ContinuationContainmentAudit where
  schemaVersion : String
  binding : ContainmentBindingEvidence
  postAttempt : Option ContainmentPostAttemptEvidence
deriving DecidableEq, Repr

def continuationContainmentAuditSchema : String := "continuation-containment-audit-v1"

/-! ## Validation -/

def isAlnum (c : Char) : Bool := isUpperAscii c || isLowerAscii c || isDigitAscii c

/-- `^[A-Za-z0-9][A-Za-z0-9._:-]{0,127}$` -/
def isId (s : String) : Bool :=
  matchesShape isAlnum (fun c => isAlnum c || c == '.' || c == '_' || c == ':' || c == '-') 0 127 s

/-- `^[A-Za-z0-9][A-Za-z0-9._-]{0,127}$` -/
def isVersion (s : String) : Bool :=
  matchesShape isAlnum (fun c => isAlnum c || c == '.' || c == '_' || c == '-') 0 127 s

/-- `^[^\u0000-\u001f\u007f]{1,256}$` -/
def isOpaqueText (s : String) : Bool :=
  1 ≤ utf16Length s && utf16Length s ≤ 256 && s.toList.all fun c => 0x1f < c.toNat && c.toNat ≠ 0x7f

/-- The five members of the prepared identity, which occur together. -/
structure PreparedIdentity where
  providerBindingDigest : String
  securityProfileId : String
  instanceIdentityDigest : String
  channelAVerifierVersion : String
  channelBVerifierVersion : String
deriving DecidableEq, Repr

/-- The facts that the containment binding digest is taken of. -/
structure BindingFacts where
  executionId : String
  taskRunId : String
  containmentPolicyId : String
  containmentPolicyVersion : String
  containmentPolicyDigest : String
  runtimeFamily : ContainmentRuntimeFamily
  runtimeVersion : String
  modelMountIdentityDigest : String
  providerId : String
  prepared : PreparedIdentity
  securityProfileDigest : String
  expectedModelId : String
  expectedModelDigest : String
  imageDigest : String
  channelAResultDigest : String
  channelBResultDigest : String
deriving DecidableEq, Repr

section validation

-- the digest of the canonical JSON of the facts, under the domain and schema of version 1
variable (sha256Canonical : BindingFacts → String)

def containmentBindingDigest (binding : ContainmentBindingEvidence) (prepared : PreparedIdentity) :
    String :=
  sha256Canonical {
    executionId := binding.executionId, taskRunId := binding.taskRunId,
    containmentPolicyId := binding.containmentPolicyId,
    containmentPolicyVersion := binding.containmentPolicyVersion,
    containmentPolicyDigest := binding.containmentPolicyDigest,
    runtimeFamily := binding.runtimeFamily, runtimeVersion := binding.runtimeVersion,
    modelMountIdentityDigest := binding.modelMountIdentityDigest,
    providerId := binding.providerId, prepared := prepared,
    securityProfileDigest := binding.securityProfileDigest,
    expectedModelId := binding.modelId, expectedModelDigest := binding.modelDigest,
    imageDigest := binding.imageDigest, channelAResultDigest := binding.channelAResultDigest,
    channelBResultDigest := binding.channelBResultDigest }

def isPreparedIdentity (binding : ContainmentBindingEvidence) (prepared : PreparedIdentity) : Bool :=
  isSha256Hex prepared.providerBindingDigest && isId prepared.securityProfileId &&
    isSha256Hex prepared.instanceIdentityDigest && isVersion prepared.channelAVerifierVersion &&
    isVersion prepared.channelBVerifierVersion &&
    prepared.channelAVerifierVersion != prepared.channelBVerifierVersion &&
    prepared.providerBindingDigest != binding.containmentBindingDigest &&
    binding.preflightDisposition == .verified &&
    binding.executionId == binding.taskRunId &&
    containmentBindingDigest sha256Canonical binding prepared == binding.containmentBindingDigest

/-- None of the five members, or all of them, valid and bound by the digest. -/
def preparedAccepted (binding : ContainmentBindingEvidence) : Bool :=
  match binding.providerBindingDigest, binding.securityProfileId, binding.instanceIdentityDigest,
    binding.channelAVerifierVersion, binding.channelBVerifierVersion with
  | none, none, none, none, none => true
  | some providerBindingDigest, some securityProfileId, some instanceIdentityDigest,
    some channelAVerifierVersion, some channelBVerifierVersion =>
    isPreparedIdentity sha256Canonical binding
      { providerBindingDigest, securityProfileId, instanceIdentityDigest, channelAVerifierVersion,
        channelBVerifierVersion }
  | _, _, _, _, _ => false

def projectBinding (raw : ContainmentBindingEvidence) (executionId taskRunId : String) :
    Option ContainmentBindingEvidence :=
  if preparedAccepted sha256Canonical raw &&
    raw.executionId == executionId && raw.taskRunId == taskRunId &&
    isId raw.executionId && isId raw.taskRunId &&
    isId raw.containmentPolicyId && isVersion raw.containmentPolicyVersion &&
    isSha256Hex raw.containmentPolicyDigest && isSha256Hex raw.containmentBindingDigest &&
    isId raw.providerId && isOpaqueText raw.modelId && isSha256Hex raw.modelDigest &&
    isSha256Hex raw.imageDigest && isVersion raw.runtimeVersion &&
    isSha256Hex raw.securityProfileDigest && isSha256Hex raw.modelMountIdentityDigest &&
    isVersion raw.verifierVersion && isSha256Hex raw.channelAResultDigest &&
    isSha256Hex raw.channelBResultDigest && raw.modelIntegrityStatus == .verifiedAtBind
  then some raw else none

/-- A status that only a binding can have is not an observation after the attempt. -/
def projectPostAttempt (raw : ContainmentPostAttemptEvidence) :
    Option ContainmentPostAttemptEvidence :=
  if raw.attemptBoundaryCrossed && raw.postAttemptModelIntegrity != .verifiedAtBind then some raw
  else none

/-- A stored or supplied value under the evidence key. -/
inductive EvidenceValue
  | audit (raw : ContinuationContainmentAudit)
  | other (text : String)
deriving DecidableEq, Repr

def snapshotContainmentAudit (value : EvidenceValue) (executionId taskRunId : String) :
    Option ContinuationContainmentAudit :=
  match value with
  | .other _ => none
  | .audit raw =>
    if raw.schemaVersion ≠ continuationContainmentAuditSchema then none
    else match projectBinding sha256Canonical raw.binding executionId taskRunId, raw.postAttempt with
      | none, _ => none
      | some binding, none =>
        some { schemaVersion := continuationContainmentAuditSchema, binding, postAttempt := none }
      | some binding, some post => (projectPostAttempt post).map fun post =>
        { schemaVersion := continuationContainmentAuditSchema, binding, postAttempt := some post }

theorem projectBinding_eq_some {raw binding : ContainmentBindingEvidence}
    {executionId taskRunId : String}
    (h : projectBinding sha256Canonical raw executionId taskRunId = some binding) :
    binding = raw := by
  unfold projectBinding at h
  split at h
  · exact (Option.some.inj h).symm
  · cases h

theorem projectPostAttempt_eq_some {raw post : ContainmentPostAttemptEvidence}
    (h : projectPostAttempt raw = some post) : post = raw := by
  unfold projectPostAttempt at h
  split at h
  · exact (Option.some.inj h).symm
  · cases h

/-- The projection adds nothing and drops nothing. -/
theorem snapshotContainmentAudit_eq_some {value : EvidenceValue}
    {audit : ContinuationContainmentAudit} {executionId taskRunId : String}
    (h : snapshotContainmentAudit sha256Canonical value executionId taskRunId = some audit) :
    value = .audit audit := by
  cases value with
  | other text => cases h
  | audit raw =>
    simp only [snapshotContainmentAudit] at h
    split at h
    · cases h
    · rename_i hschema
      have hschema := not_ne_iff.mp hschema
      split at h
      · cases h
      · rename_i binding hbinding hpost
        cases h
        rw [projectBinding_eq_some _ hbinding, ← hschema, ← hpost]
      · rename_i binding post hbinding hpost
        obtain ⟨post', hpost', heq⟩ := Option.map_eq_some_iff.mp h
        subst heq
        rw [projectBinding_eq_some _ hbinding, projectPostAttempt_eq_some hpost', ← hschema, ← hpost]

/-- Storing accepted evidence and reading it back. -/
theorem snapshotContainmentAudit_stored {value : EvidenceValue}
    {audit : ContinuationContainmentAudit} {executionId taskRunId : String}
    (h : snapshotContainmentAudit sha256Canonical value executionId taskRunId = some audit) :
    snapshotContainmentAudit sha256Canonical (.audit audit) executionId taskRunId = some audit := by
  have hvalue := snapshotContainmentAudit_eq_some sha256Canonical h
  rwa [hvalue] at h

end validation

/-! ## Comparison -/

/-- The members of a binding are its keys, so their equality is that of the records. -/
def bindingIdentical (a b : ContainmentBindingEvidence) : Bool := a == b

def postAttemptIdentical (a b : ContainmentPostAttemptEvidence) : Bool := a == b

/-- What a generic save may do with evidence: carry the exact evidence forward. -/
def containmentEvidenceIdentical :
    Option ContinuationContainmentAudit → Option ContinuationContainmentAudit → Bool
  | none, none => true
  | some current, some incoming =>
    bindingIdentical current.binding incoming.binding &&
      match current.postAttempt, incoming.postAttempt with
      | none, none => true
      | some a, some b => postAttemptIdentical a b
      | _, _ => false
  | _, _ => false

theorem containmentEvidenceIdentical_some {current : ContinuationContainmentAudit}
    {incoming : Option ContinuationContainmentAudit}
    (h : containmentEvidenceIdentical (some current) incoming = true) :
    ∃ kept, incoming = some kept ∧ kept.binding = current.binding ∧
      kept.postAttempt = current.postAttempt := by
  cases incoming with
  | none => cases h
  | some kept =>
    simp only [containmentEvidenceIdentical, bindingIdentical, Bool.and_eq_true, beq_iff_eq] at h
    refine ⟨kept, rfl, h.1.symm, ?_⟩
    have hpost := h.2
    split at hpost
    · rename_i hcurrent hkept
      rw [hcurrent, hkept]
    · rename_i a b hcurrent hkept
      rw [hcurrent, hkept, beq_iff_eq.mp hpost]
    · cases hpost

theorem containmentEvidenceIdentical_of_some {current : Option ContinuationContainmentAudit}
    {incoming : ContinuationContainmentAudit}
    (h : containmentEvidenceIdentical current (some incoming) = true) :
    ∃ stored, current = some stored ∧ stored.postAttempt = incoming.postAttempt := by
  cases current with
  | none => cases h
  | some stored =>
    obtain ⟨kept, hkept, -, hpost⟩ := containmentEvidenceIdentical_some h
    cases hkept
    exact ⟨stored, rfl, hpost.symm⟩

/-- Evidence that vetoes a definite end of its run. -/
def ContinuationContainmentAudit.vetoes (audit : ContinuationContainmentAudit) : Bool :=
  audit.postAttempt.any fun post =>
    post.postAttemptModelIntegrity == .mismatch || post.failureCode.isSome

end QuokyPlatform.TaskRuns
