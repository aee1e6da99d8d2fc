import Mathlib.Data.List.AList
import Mathlib.Tactic.Common
import QuokyPlatform.Foundations.JsonText
import QuokyPlatform.Foundations.Text

/-! # Generations of the instance lock

The lock directory holds the generation files `gen-<n>` and the temporary files they are linked from.
A generation is held by a process or marked as released, and the highest one is the state of the lock.
What a file says is the value of its text: nothing, when the text is not JSON. -/

namespace QuokyPlatform.InstanceLock

set_option autoImplicit false
set_option maxHeartbeats 250000

/-! ## Lock records -/

inductive InstanceLockRecord where
  | held (pid : ℤ) (startedAt : String) (bootId : Option String) (token : String)
  | released (pid : ℤ) (releasedAt token : String)
  deriving DecidableEq

namespace InstanceLockRecord

def token : InstanceLockRecord → String
  | .held _ _ _ token => token
  | .released _ _ token => token

def state : InstanceLockRecord → String
  | .held .. => "held"
  | .released .. => "released"

def pid : InstanceLockRecord → ℤ
  | .held pid _ _ _ => pid
  | .released pid _ _ => pid

/-- The value that is written. -/
def toJson : InstanceLockRecord → Json
  | .held pid startedAt bootId token => .obj [("state", .str "held"), ("pid", .num pid),
      ("startedAt", .str startedAt), ("bootId", (bootId.map .str).getD .null),
      ("token", .str token)]
  | .released pid releasedAt token => .obj [("state", .str "released"), ("pid", .num pid),
      ("releasedAt", .str releasedAt), ("token", .str token)]

end InstanceLockRecord

/-- The value of a file's text. -/
abbrev Contents := Option Json

def MAX_SAFE_INTEGER : ℤ := 9007199254740991

/-- Whether a number is the id of a process: not zero or negative, which address groups. -/
def isProcessId (pid : ℤ) : Bool := pid.natAbs ≤ MAX_SAFE_INTEGER.natAbs && 0 < pid

/-- `value.bootId === null || typeof value.bootId === 'string'`, with the boot id. -/
def readBootId : Option Json → Option (Option String)
  | some .null => some none
  | some (.str bootId) => some (some bootId)
  | _ => none

def parseLockRecord (text : Contents) : Option InstanceLockRecord :=
  match text with
  | none => none
  | some value =>
    match value.field "pid", value.field "token" with
    | some (.num pid), some (.str token) =>
      if !isProcessId pid then none
      else
        match value.field "state", value.field "startedAt", readBootId (value.field "bootId"),
            value.field "releasedAt" with
        | some (.str "held"), some (.str startedAt), some bootId, _ =>
          some (.held pid startedAt bootId token)
        | some (.str "released"), _, _, some (.str releasedAt) =>
          some (.released pid releasedAt token)
        | _, _, _, _ => none
    | _, _ => none

/-- What a process writes, every process reads. -/
theorem parseLockRecord_toJson {record : InstanceLockRecord}
    (hpid : isProcessId record.pid = true) : parseLockRecord (some record.toJson) = some record := by
  cases record with
  | held pid startedAt bootId token =>
    have hvalid : isProcessId pid = true := hpid
    cases bootId <;>
      simp [parseLockRecord, InstanceLockRecord.toJson, Json.field, readBootId, hvalid]
  | released pid releasedAt token =>
    have hvalid : isProcessId pid = true := hpid
    simp [parseLockRecord, InstanceLockRecord.toJson, Json.field, readBootId, hvalid]

/-! ## File names -/

def generationPath (generation : ℕ) : String := "gen-" ++ toString generation

def tempPath (record : InstanceLockRecord) (generation : ℕ) : String :=
  "tmp-" ++ record.token ++ "-" ++ record.state ++ "-" ++ toString generation

/-- `^gen-([1-9]\d{0,14})$`, and the number. -/
def generationOf (name : String) : Option ℕ :=
  match name.toList with
  | 'g' :: 'e' :: 'n' :: '-' :: first :: rest =>
    if first != '0' && (first :: rest).all isDigitAscii && rest.length ≤ 14 then
      some (Nat.ofDigitChars 10 (first :: rest) 0)
    else none
  | _ => none

theorem isDigitAscii_eq (c : Char) : isDigitAscii c = c.isDigit := rfl

theorem digitChar_sub {c : Char} (h : isDigitAscii c = true) :
    c.toNat - '0'.toNat < 10 ∧ Nat.digitChar (c.toNat - '0'.toNat) = c := by
  simp only [isDigitAscii, Bool.and_eq_true, decide_eq_true_eq, Char.le_def, UInt32.le_iff_toNat_le]
    at h
  obtain ⟨hlow, hhigh⟩ := h
  have hbounds : 48 ≤ c.toNat ∧ c.toNat ≤ 57 := ⟨hlow, hhigh⟩
  have hsub : c.toNat - '0'.toNat < 10 := by
    show c.toNat - 48 < 10
    omega
  refine ⟨hsub, ?_⟩
  apply Char.toNat_inj.mp
  have hdigits : ∀ n < 10, (Nat.digitChar n).toNat = n + 48 := by decide
  rw [hdigits _ hsub]
  show c.toNat - 48 + 48 = c.toNat
  omega

/-- Digits without a leading zero are those of their number. -/
theorem toDigits_ofDigitChars {digits : List Char} (hdigits : digits.all isDigitAscii = true)
    (hfirst : ∀ c rest, digits = c :: rest → c ≠ '0') (hne : digits ≠ []) :
    Nat.toDigits 10 (Nat.ofDigitChars 10 digits 0) = digits ∧
      0 < Nat.ofDigitChars 10 digits 0 := by
  induction digits using List.reverseRecOn with
  | nil => exact absurd rfl hne
  | append_singleton front last ih =>
    rw [List.all_append, Bool.and_eq_true] at hdigits
    have hlast : isDigitAscii last = true := by simpa using hdigits.2
    obtain ⟨hlt, hchar⟩ := digitChar_sub hlast
    rw [Nat.ofDigitChars_append, Nat.ofDigitChars_cons, Nat.ofDigitChars_nil]
    cases front with
    | nil =>
      have hnonzero : last ≠ '0' := hfirst last [] rfl
      rw [Nat.ofDigitChars_nil, Nat.mul_zero, Nat.zero_add, Nat.toDigits_of_lt_base hlt, hchar]
      refine ⟨rfl, Nat.pos_of_ne_zero fun hzero => hnonzero ?_⟩
      rw [← hchar, hzero]
      rfl
    | cons c rest =>
      obtain ⟨hfront, hpos⟩ := ih hdigits.1
        (fun d others heq => hfirst d (others ++ [last]) (by rw [heq]; rfl)) (by simp)
      rw [← Nat.toDigits_append_toDigits (by decide) hpos hlt, hfront,
        Nat.toDigits_of_lt_base hlt, hchar]
      exact ⟨rfl, by omega⟩

theorem head_toDigits {n : ℕ} (hn : 0 < n) {c : Char} {rest : List Char}
    (h : Nat.toDigits 10 n = c :: rest) : c ≠ '0' := by
  induction n using Nat.strong_induction_on generalizing rest with
  | _ n ih =>
    by_cases hlt : n < 10
    · rw [Nat.toDigits_of_lt_base hlt] at h
      have hdigits : ∀ m < 10, 0 < m → Nat.digitChar m ≠ '0' := by decide
      rw [← (List.cons.inj h).1]
      exact hdigits n hlt hn
    · rw [Nat.toDigits_of_base_le (by decide) (Nat.not_lt.mp hlt)] at h
      cases hquotient : Nat.toDigits 10 (n / 10) with
      | nil => exact absurd hquotient Nat.toDigits_ne_nil
      | cons d others =>
        rw [hquotient, List.cons_append, List.cons.injEq] at h
        exact ih (n / 10) (by omega) (by omega) (h.1 ▸ hquotient)

theorem toList_generationPath (generation : ℕ) :
    (generationPath generation).toList = 'g' :: 'e' :: 'n' :: '-' :: Nat.toDigits 10 generation := by
  simp [generationPath]

/-- The name of a generation, and no other name, is read as that generation. -/
theorem generationOf_eq_some {name : String} {generation : ℕ} :
    generationOf name = some generation ↔
      name = generationPath generation ∧ 0 < generation ∧ generation < 10 ^ 15 := by
  constructor
  · intro h
    unfold generationOf at h
    split at h
    · rename_i first rest hname
      split at h
      · rename_i hshape
        simp only [Bool.and_eq_true, bne_iff_ne, decide_eq_true_eq] at hshape
        obtain ⟨⟨hfirst, hdigits⟩, hlength⟩ := hshape
        obtain ⟨hround, hpos⟩ := toDigits_ofDigitChars hdigits
          (fun c others heq => by cases heq; exact hfirst) (by simp)
        obtain rfl := Option.some.inj h
        refine ⟨?_, hpos, ?_⟩
        · apply String.toList_inj.mp
          rw [hname, toList_generationPath, hround]
        · refine (Nat.length_toDigits_le_iff (by decide) (by decide)).mp ?_
          rw [hround, List.length_cons]
          omega
      · cases h
    · cases h
  · rintro ⟨rfl, hpos, hlt⟩
    have hlength := (Nat.length_toDigits_le_iff (by decide : 1 < 10) (by decide)).mpr hlt
    have hall : (Nat.toDigits 10 generation).all isDigitAscii = true := by
      rw [List.all_eq_true]
      exact fun c hc => Nat.isDigit_of_mem_toDigits (by decide) (by decide) hc
    have hround : Nat.ofDigitChars 10 (Nat.toDigits 10 generation) 0 = generation :=
      Nat.ofDigitChars_ten_toDigits
    unfold generationOf
    rw [toList_generationPath]
    cases hcs : Nat.toDigits 10 generation with
    | nil => exact absurd hcs Nat.toDigits_ne_nil
    | cons first rest =>
      rw [hcs] at hlength hall hround
      have hfirst : first ≠ '0' := head_toDigits hpos hcs
      have hshape : (first != '0' && (first :: rest).all isDigitAscii && rest.length ≤ 14) = true := by
        rw [hall, Bool.and_true, Bool.and_eq_true, bne_iff_ne, decide_eq_true_eq]
        rw [List.length_cons] at hlength
        exact ⟨hfirst, by omega⟩
      simp only [hshape, if_true, hround]

/-- A temporary file is not read as a generation. -/
theorem generationOf_tempPath (record : InstanceLockRecord) (generation : ℕ) :
    generationOf (tempPath record generation) = none := by
  simp [generationOf, tempPath]

theorem generationPath_injective : Function.Injective generationPath := by
  intro m n h
  have hdigits := congrArg String.toList h
  rw [toList_generationPath, toList_generationPath] at hdigits
  have hsame : Nat.toDigits 10 m = Nat.toDigits 10 n := by simpa using hdigits
  rw [← Nat.ofDigitChars_ten_toDigits (n := m), hsame, Nat.ofDigitChars_ten_toDigits]

/-- Temporary files of different tokens have different names. -/
theorem tempPath_token {r r' : InstanceLockRecord} {m n : ℕ} (h : tempPath r m = tempPath r' n) :
    r.token = r'.token := by
  -- read from the back, the digits end at the first dash and the state at the second
  have hchars := congrArg (fun name => name.toList.reverse) h
  simp only [tempPath, String.toList_append, List.reverse_append, Nat.toString_eq_repr,
    Nat.toList_repr] at hchars
  have hdash : ∀ rest, Json.Delimited ("-".toList.reverse ++ rest) :=
    fun rest => Json.delimited_cons (by decide)
  have hdigits : ∀ n, ∀ c ∈ (Nat.toDigits 10 n).reverse, c.isDigit = true :=
    fun n c hc => Json.isDigit_of_mem (List.mem_reverse.mp hc)
  obtain ⟨-, hrest⟩ := Json.digits_append (hdigits m) (hdigits n) (hdash _) (hdash _) hchars
  apply String.toList_inj.mp
  cases r <;> cases r' <;>
    simp [InstanceLockRecord.state, InstanceLockRecord.token] at hrest ⊢ <;> exact hrest

/-! ## The directory -/

abbrev Directory := AList fun _ : String => Contents

def listGenerations (names : List String) : List ℕ := names.filterMap generationOf

/-- The highest of the generations, 0 for none. -/
def highest (generations : List ℕ) : ℕ :=
  generations.foldl (fun max g => if g > max then g else max) 0

/-- The highest generation that is there. -/
def Directory.top (files : Directory) : ℕ := highest (listGenerations files.keys)

theorem foldl_highest (generations : List ℕ) (first : ℕ) :
    first ≤ generations.foldl (fun max g => if g > max then g else max) first ∧
      (∀ g ∈ generations, g ≤ generations.foldl (fun max g => if g > max then g else max) first) ∧
      (generations.foldl (fun max g => if g > max then g else max) first = first ∨
        generations.foldl (fun max g => if g > max then g else max) first ∈ generations) := by
  induction generations generalizing first with
  | nil => simp
  | cons g rest ih =>
    obtain ⟨hle, hall, hcase⟩ := ih (if g > first then g else first)
    have hmax : first ≤ (if g > first then g else first) ∧ g ≤ if g > first then g else first := by
      split <;> omega
    simp only [List.foldl_cons, List.mem_cons, forall_eq_or_imp]
    refine ⟨hmax.1.trans hle, ⟨hmax.2.trans hle, hall⟩, ?_⟩
    · rcases hcase with hcase | hcase
      · rw [hcase]
        split
        · exact .inr (.inl rfl)
        · exact .inl rfl
      · exact .inr (.inr hcase)

theorem mem_listGenerations {names : List String} {n : ℕ} :
    n ∈ listGenerations names ↔ generationPath n ∈ names ∧ 0 < n ∧ n < 10 ^ 15 := by
  simp only [listGenerations, List.mem_filterMap, generationOf_eq_some]
  constructor
  · rintro ⟨name, hname, rfl, hbounds⟩
    exact ⟨hname, hbounds⟩
  · rintro ⟨hname, hbounds⟩
    exact ⟨_, hname, rfl, hbounds⟩

namespace Directory

variable {files : Directory}

theorem le_top {n : ℕ} (hmem : generationPath n ∈ files) (hn : 0 < n) (hlt : n < 10 ^ 15) :
    n ≤ files.top :=
  (foldl_highest _ 0).2.1 n (mem_listGenerations.mpr ⟨AList.mem_keys.mp hmem, hn, hlt⟩)

theorem top_mem (h : files.top ≠ 0) : generationPath files.top ∈ files := by
  rcases (foldl_highest (listGenerations files.keys) 0).2.2 with hzero | hmem
  · exact absurd hzero h
  · exact AList.mem_keys.mpr (mem_listGenerations.mp hmem).1

theorem top_lt (files : Directory) : files.top < 10 ^ 15 := by
  rcases (foldl_highest (listGenerations files.keys) 0).2.2 with hzero | hmem
  · show highest _ < _
    unfold highest
    omega
  · exact (mem_listGenerations.mp hmem).2.2

/-- The highest generation is the one that is there and not below another. -/
theorem top_eq {k : ℕ} (hmem : k ≠ 0 → generationPath k ∈ files) (hlt : k < 10 ^ 15)
    (hle : ∀ n, generationPath n ∈ files → 0 < n → n < 10 ^ 15 → n ≤ k) : files.top = k := by
  by_cases hzero : files.top = 0
  · rw [hzero]
    by_contra hk
    have hbelow := le_top (hmem (Ne.symm hk)) (Nat.pos_of_ne_zero (Ne.symm hk)) hlt
    omega
  · have htop := hle _ (top_mem hzero) (Nat.pos_of_ne_zero hzero) files.top_lt
    refine le_antisymm htop ?_
    by_cases hk : k = 0
    · omega
    · exact le_top (hmem hk) (Nat.pos_of_ne_zero hk) hlt

theorem top_insert {n : ℕ} {contents : Contents} (hn : 0 < n) (hlt : n < 10 ^ 15) :
    Directory.top (files.insert (generationPath n) contents) = max files.top n := by
  have hbound := files.top_lt
  refine top_eq (fun _ => ?_) (by omega) fun m hmem hm hmlt => ?_
  · rw [AList.mem_insert]
    rcases le_total files.top n with hle | hle
    · exact .inl (by rw [max_eq_right hle])
    · exact .inr (by rw [max_eq_left hle]; exact top_mem (by omega))
  · rw [AList.mem_insert] at hmem
    rcases hmem with heq | hmem
    · rw [generationPath_injective heq]
      exact le_max_right _ _
    · exact (le_top hmem hm hmlt).trans (le_max_left _ _)

theorem top_insert_other {name : String} {contents : Contents} (hname : generationOf name = none) :
    Directory.top (files.insert name contents) = files.top := by
  refine top_eq (fun h => ?_) files.top_lt fun m hmem hm hmlt => ?_
  · exact (AList.mem_insert files).mpr (.inr (top_mem h))
  · rw [AList.mem_insert] at hmem
    rcases hmem with rfl | hmem
    · rw [generationOf_eq_some.mpr ⟨rfl, hm, hmlt⟩] at hname
      cases hname
    · exact le_top hmem hm hmlt

theorem top_erase {name : String} (hname : name ≠ generationPath files.top) :
    Directory.top (files.erase name) = files.top := by
  refine top_eq (fun h => ?_) files.top_lt fun m hmem hm hmlt => ?_
  · exact AList.mem_erase.mpr ⟨hname.symm, top_mem h⟩
  · exact le_top (AList.mem_erase.mp hmem).2 hm hmlt

end Directory

end QuokyPlatform.InstanceLock
