import QuokyPlatform.Foundations.KeyedMutex

/-! # The promise queues of the keyed mutex

`KeyedMutex` as it is written: a map from a key to the promise behind the last call, and a hold that
is live while its work runs. A call waits for the promise it found under its key, and a promise that
settles is followed by callbacks that run later, in any order. Every run of this machine is a run of
the keyed critical sections, so what is proved of those holds of the code. -/

namespace QuokyPlatform.Locks

set_option autoImplicit false
set_option maxHeartbeats 250000

/-! ## The machine -/

/-- How far a call of `run` is: its promise and the tail behind it settle one after the other, and the
last callback takes the tail out of the map. -/
inductive Phase where
  | waiting | inside | settled | tailSettled | ended
  deriving DecidableEq

/-- The tail is settled, so the next call may enter. -/
def Phase.passed : Phase → Bool
  | .tailSettled | .ended => true
  | _ => false

/-- The work is not over. -/
def Phase.isOpen : Phase → Bool
  | .waiting | .inside => true
  | _ => false

/-- A call and the tail it found; a call is named by its place among all calls, and so are its hold and
its tail. -/
structure Call (κ σ ι ε : Type) where
  key : κ
  work : Program σ ι ε Unit
  previous : Option ℕ
  phase : Phase

structure Mutex (κ σ ι ε : Type) where
  shared : σ
  calls : List (Call κ σ ι ε)
  queues : κ → Option ℕ
  active : ℕ → Bool

inductive Action {κ : Type} (τ : κ → Type) (ι : Type)
  | run (key : κ) (work : τ key) (held : Option ℕ)
  | enter (id : ℕ)
  | proceed (id : ℕ) (input : ι)
  | settle (id : ℕ)
  | settleTail (id : ℕ)
  | cleanUp (id : ℕ)
  | crash

namespace Mutex

variable {κ σ ι ε : Type} {τ : κ → Type} [DecidableEq κ]

def start (s : σ) : Mutex κ σ ι ε := ⟨s, [], fun _ => none, fun _ => false⟩

/-- Whether the hold is a live one for the key. -/
def holds (mutex : Mutex κ σ ι ε) (hold : Option ℕ) (key : κ) : Bool :=
  hold.any fun id => (mutex.calls[id]?).any (fun call => call.key = key) && mutex.active id

/-- What a call waits for: the tail it found, or nothing. -/
def ready (mutex : Mutex κ σ ι ε) : Option ℕ → Bool
  | none => true
  | some id => (mutex.calls[id]?).any fun call => call.phase.passed

def setCall (mutex : Mutex κ σ ι ε) (id : ℕ) (call : Call κ σ ι ε) : Mutex κ σ ι ε :=
  { mutex with calls := mutex.calls.set id call }

/-- One action. The work of a call that brings a live hold runs inside the holder's work: the mutex
does nothing. -/
def step (body : (key : κ) → τ key → Program σ ι ε Unit) (mutex : Mutex κ σ ι ε) :
    Action τ ι → Option (Mutex κ σ ι ε)
  | .run key work held =>
    if mutex.holds held key then some mutex
    else some { mutex with
      calls := mutex.calls ++ [⟨key, body key work, mutex.queues key, .waiting⟩]
      queues := Function.update mutex.queues key (some mutex.calls.length) }
  | .enter id =>
    match mutex.calls[id]? with
    | some ⟨key, work, previous, .waiting⟩ =>
      if mutex.ready previous then
        some { mutex.setCall id ⟨key, work, previous, .inside⟩ with
          active := Function.update mutex.active id true }
      else none
    | _ => none
  | .proceed id input =>
    match mutex.calls[id]? with
    | some ⟨key, .atomic op next, previous, .inside⟩ =>
      (op mutex.shared input).map fun (result, s) =>
        { mutex.setCall id ⟨key, next result, previous, .inside⟩ with shared := s }
    | _ => none
  | .settle id =>
    match mutex.calls[id]? with
    | some ⟨key, .done result, previous, .inside⟩ =>
      some { mutex.setCall id ⟨key, .done result, previous, .settled⟩ with
        active := Function.update mutex.active id false }
    | _ => none
  | .settleTail id =>
    match mutex.calls[id]? with
    | some ⟨key, work, previous, .settled⟩ =>
      some (mutex.setCall id ⟨key, work, previous, .tailSettled⟩)
    | _ => none
  | .cleanUp id =>
    match mutex.calls[id]? with
    | some ⟨key, work, previous, .tailSettled⟩ =>
      some { mutex.setCall id ⟨key, work, previous, .ended⟩ with
        queues := if mutex.queues key = some id then Function.update mutex.queues key none
          else mutex.queues }
    | _ => none
  | .crash => some (start mutex.shared)

/-- The works of a key that are not over, in the order of the calls. -/
def pending (calls : List (Call κ σ ι ε)) (key : κ) : List (Program σ ι ε Unit) :=
  (calls.filter fun call => call.key = key && call.phase.isOpen).map Call.work

/-- The critical sections the machine implements. -/
def sections (mutex : Mutex κ σ ι ε) : KeyedMutex κ σ ι ε := ⟨mutex.shared, pending mutex.calls⟩

/-! ## The order of the calls of a key -/

/-- The calls of a key enter one after the other, and the map names the last of them while it is not
over. -/
structure Ordered (mutex : Mutex κ σ ι ε) : Prop where
  passed : ∀ (i j : ℕ) (first second : Call κ σ ι ε), i < j → mutex.calls[i]? = some first →
    mutex.calls[j]? = some second → first.key = second.key → second.phase ≠ .waiting →
      first.phase.passed = true
  behind : ∀ (j : ℕ) (call : Call κ σ ι ε) (p : ℕ), mutex.calls[j]? = some call →
    call.previous = some p → p < j ∧ ∀ (i : ℕ) (other : Call κ σ ι ε), i < j → mutex.calls[i]? = some other → other.key = call.key → i ≤ p
  named : ∀ (j : ℕ) (call : Call κ σ ι ε) (p : ℕ), mutex.calls[j]? = some call →
    call.previous = some p → ∃ before : Call κ σ ι ε, mutex.calls[p]? = some before ∧ before.key = call.key
  alone : ∀ (i j : ℕ) (other call : Call κ σ ι ε), mutex.calls[j]? = some call → call.previous = none → i < j →
    mutex.calls[i]? = some other → other.key = call.key → other.phase.passed = true
  last : ∀ key id, mutex.queues key = some id →
    (∃ call : Call κ σ ι ε, mutex.calls[id]? = some call ∧ call.key = key ∧ call.phase ≠ .ended) ∧
      ∀ (j : ℕ) (call : Call κ σ ι ε), mutex.calls[j]? = some call → call.key = key → j ≤ id
  empty : ∀ key, mutex.queues key = none → ∀ (j : ℕ) (call : Call κ σ ι ε),
    mutex.calls[j]? = some call → call.key = key → call.phase.passed = true
  live : ∀ id, mutex.active id = true ↔
    ∃ call : Call κ σ ι ε, mutex.calls[id]? = some call ∧ call.phase = .inside

section order

variable {mutex : Mutex κ σ ι ε} {body : (key : κ) → τ key → Program σ ι ε Unit}

omit [DecidableEq κ] in
theorem Ordered.start (s : σ) : Ordered (start s : Mutex κ σ ι ε) := by
  constructor <;> simp [Mutex.start]

/-- A call moves on: its key and the tail it waits for stay, and so does its place; a tail that was
settled stays settled, and a call that was let in found all the earlier ones of its key settled. -/
theorem Ordered.setCall (h : Ordered mutex) {id : ℕ} {call : Call κ σ ι ε} (next : Call κ σ ι ε)
    (hcall : mutex.calls[id]? = some call) (hkey : next.key = call.key)
    (hprevious : next.previous = call.previous)
    (hpassed : call.phase.passed = true → next.phase.passed = true)
    (hwaiting : next.phase ≠ .waiting)
    (hentered : call.phase = .waiting → mutex.ready call.previous = true)
    {queues : κ → Option ℕ} {active : ℕ → Bool} {shared : σ}
    (hqueues : queues = mutex.queues ∨ next.phase = .ended ∧ next.phase.passed = true ∧
      mutex.queues call.key = some id ∧ queues = Function.update mutex.queues call.key none)
    (hover : next.phase = .ended → queues call.key ≠ some id)
    (hactive : active = Function.update mutex.active id (next.phase = .inside)) :
    Ordered ⟨shared, mutex.calls.set id next, queues, active⟩ := by
  have hlt : id < mutex.calls.length := (List.getElem?_eq_some_iff.mp hcall).1
  have hself : (mutex.calls.set id next)[id]? = some next := by
    rw [List.getElem?_set_self hlt]
  have hother : ∀ j : ℕ, j ≠ id → (mutex.calls.set id next)[j]? = mutex.calls[j]? := by
    intro j hj
    rw [List.getElem?_set_ne (Ne.symm hj)]
  -- Every call of the new list is one of the old, moved on.
  have hold : ∀ (j : ℕ) (found : Call κ σ ι ε), (mutex.calls.set id next)[j]? = some found →
      ∃ old : Call κ σ ι ε, mutex.calls[j]? = some old ∧ found.key = old.key ∧ found.previous = old.previous ∧
        (old.phase.passed = true → found.phase.passed = true) ∧
        (j ≠ id → found = old) ∧ (j = id → found = next ∧ old = call) := by
    intro j found hfound
    by_cases hj : j = id
    · subst hj
      rw [hself] at hfound
      cases hfound
      exact ⟨call, hcall, hkey, hprevious, hpassed, fun hne => absurd rfl hne, fun _ => ⟨rfl, rfl⟩⟩
    · rw [hother j hj] at hfound
      exact ⟨found, hfound, rfl, rfl, fun h => h, fun _ => rfl, fun hid => absurd hid hj⟩
  have hearlier : ∀ (i : ℕ) (other : Call κ σ ι ε), i < id → mutex.calls[i]? = some other → other.key = call.key →
      other.phase.passed = true := by
    intro i other hi hfound hsame
    by_cases hphase : call.phase = .waiting
    · have hready := hentered hphase
      cases hprev : call.previous with
      | none => exact h.alone i id other call hcall hprev hi hfound hsame
      | some p =>
        rw [hprev] at hready
        obtain ⟨hp, hmax⟩ := h.behind id call p hcall hprev
        obtain ⟨before, hbefore, hbeforeKey⟩ := h.named id call p hcall hprev
        simp only [ready, hbefore, Option.any_some] at hready
        have hile := hmax i other hi hfound hsame
        rcases Nat.eq_or_lt_of_le hile with rfl | hip
        · rw [hbefore] at hfound
          cases hfound
          exact hready
        · refine h.passed i p other before hip hfound hbefore (by rw [hsame, hbeforeKey]) ?_
          intro hw
          rw [hw] at hready
          cases hready
    · exact h.passed i id other call hi hfound hcall hsame hphase
  refine ⟨?_, ?_, ?_, ?_, ?_, ?_, ?_⟩
  · intro i j first second hij hfirst hsecond hsame hphase
    obtain ⟨first', hfirst', hkey₁, -, hpass, -, -⟩ := hold i first hfirst
    obtain ⟨second', hsecond', hkey₂, -, -, hne, heq⟩ := hold j second hsecond
    apply hpass
    by_cases hj : j = id
    · obtain ⟨rfl, rfl⟩ := heq hj
      subst hj
      exact hearlier i first' hij hfirst' (by rw [← hkey₁, hsame, hkey])
    · rw [hne hj] at hphase hkey₂ hsame
      exact h.passed i j first' second' hij hfirst' hsecond' (by rw [← hkey₁, hsame]) hphase
  · intro j found p hfound hprev
    obtain ⟨old, hold', hk, hp, -⟩ := hold j found hfound
    rw [hp] at hprev
    obtain ⟨hlt', hmax⟩ := h.behind j old p hold' hprev
    refine ⟨hlt', fun i other hi hother' hsame => ?_⟩
    obtain ⟨other', hother'', hk', -⟩ := hold i other hother'
    exact hmax i other' hi hother'' (by rw [← hk', hsame, hk])
  · intro j found p hfound hprev
    obtain ⟨old, hold', hk, hp, -⟩ := hold j found hfound
    rw [hp] at hprev
    obtain ⟨before, hbefore, hsame⟩ := h.named j old p hold' hprev
    by_cases hpid : p = id
    · subst hpid
      rw [hcall] at hbefore
      cases hbefore
      exact ⟨next, hself, by rw [hkey, hsame, hk]⟩
    · exact ⟨before, by rw [hother p hpid]; exact hbefore, by rw [hsame, hk]⟩
  · intro i j other found hfound hprev hij hother' hsame
    obtain ⟨old, hold', hk, hp, -⟩ := hold j found hfound
    obtain ⟨other', hother'', hk', -, hpass, -⟩ := hold i other hother'
    rw [hp] at hprev
    exact hpass (h.alone i j other' old hold' hprev hij hother'' (by rw [← hk', hsame, hk]))
  · intro key last hlast
    have hlast : queues key = some last := hlast
    have hlast' : mutex.queues key = some last := by
      rcases hqueues with rfl | ⟨-, -, -, rfl⟩
      · exact hlast
      · by_cases hk : key = call.key
        · subst hk
          rw [Function.update_self] at hlast
          cases hlast
        · rwa [Function.update_of_ne hk] at hlast
    obtain ⟨⟨found, hfound, hfoundKey, hnot⟩, hmax⟩ := h.last key last hlast'
    refine ⟨?_, fun j other hother' hsame => ?_⟩
    · by_cases hid : last = id
      · subst hid
        rw [hcall] at hfound
        cases hfound
        refine ⟨next, hself, by rw [hkey, hfoundKey], fun hphase => ?_⟩
        exact hover hphase (by rw [hfoundKey]; exact hlast)
      · exact ⟨found, by rw [hother last hid]; exact hfound, hfoundKey, hnot⟩
    · obtain ⟨other', hother'', hk', -⟩ := hold j other hother'
      exact hmax j other' hother'' (by rw [← hk', hsame])
  · intro key hnone j found hfound hsame
    have hnone : queues key = none := hnone
    obtain ⟨old, hold', hk, -, hpass, hne, heq⟩ := hold j found hfound
    rcases hqueues with rfl | ⟨hphase, hnext, hlast, rfl⟩
    · exact hpass (h.empty key hnone j old hold' (by rw [← hk, hsame]))
    · by_cases hkc : key = call.key
      · -- The last call of the key is over, and the others passed before it.
        subst hkc
        by_cases hj : j = id
        · rw [(heq hj).1]
          exact hnext
        · have hle := (h.last _ id hlast).2 j old hold' (by rw [← hk, hsame])
          exact hpass (hearlier j old (by omega) hold' (by rw [← hk, hsame]))
      · rw [Function.update_of_ne hkc] at hnone
        exact hpass (h.empty key hnone j old hold' (by rw [← hk, hsame]))
  · intro j
    show active j = true ↔ _
    rw [hactive]
    by_cases hj : j = id
    · subst hj
      rw [Function.update_self, decide_eq_true_eq]
      exact ⟨fun hin => ⟨next, hself, hin⟩, fun ⟨found, hfound, hin⟩ => by
        rw [hself] at hfound
        cases hfound
        exact hin⟩
    · rw [Function.update_of_ne hj, h.live j]
      show _ ↔ ∃ found, (mutex.calls.set id next)[j]? = some found ∧ found.phase = .inside
      rw [hother j hj]

theorem Ordered.append (h : Ordered mutex) (key : κ) (work : Program σ ι ε Unit) :
    Ordered { mutex with
      calls := mutex.calls ++ [⟨key, work, mutex.queues key, .waiting⟩]
      queues := Function.update mutex.queues key (some mutex.calls.length) } := by
  have hold : ∀ (j : ℕ) (found : Call κ σ ι ε),
      (mutex.calls ++ [⟨key, work, mutex.queues key, .waiting⟩])[j]? = some found →
        mutex.calls[j]? = some found ∧ j < mutex.calls.length ∨
          j = mutex.calls.length ∧ found = ⟨key, work, mutex.queues key, .waiting⟩ := by
    intro j found hfound
    rcases Nat.lt_or_ge j mutex.calls.length with hj | hj
    · rw [List.getElem?_append_left hj] at hfound
      exact Or.inl ⟨hfound, hj⟩
    · rw [List.getElem?_append_right hj] at hfound
      have hzero : j - mutex.calls.length = 0 := by
        by_contra hne
        rw [List.getElem?_eq_none (by rw [List.length_singleton]; omega)] at hfound
        cases hfound
      rw [hzero] at hfound
      cases hfound
      exact Or.inr ⟨by omega, rfl⟩
  have hleft : ∀ (j : ℕ) (found : Call κ σ ι ε), mutex.calls[j]? = some found →
      (mutex.calls ++ [⟨key, work, mutex.queues key, .waiting⟩])[j]? = some found := by
    intro j found hfound
    rw [List.getElem?_append_left (List.getElem?_eq_some_iff.mp hfound).1]
    exact hfound
  refine ⟨?_, ?_, ?_, ?_, ?_, ?_, ?_⟩
  · intro i j first second hij hfirst hsecond hsame hphase
    rcases hold j second hsecond with ⟨hsecond, hj⟩ | ⟨-, rfl⟩
    · rcases hold i first hfirst with ⟨hfirst, -⟩ | ⟨rfl, -⟩
      · exact h.passed i j first second hij hfirst hsecond hsame hphase
      · omega
    · exact absurd rfl hphase
  · intro j call p hcall hprev
    rcases hold j call hcall with ⟨hcall, hj⟩ | ⟨rfl, rfl⟩
    · obtain ⟨hlt, hmax⟩ := h.behind j call p hcall hprev
      refine ⟨hlt, fun i other hi hother hsame => ?_⟩
      rcases hold i other hother with ⟨hother, -⟩ | ⟨rfl, -⟩
      · exact hmax i other hi hother hsame
      · omega
    · obtain ⟨⟨before, hbefore, -⟩, hmax⟩ := h.last key p hprev
      refine ⟨(List.getElem?_eq_some_iff.mp hbefore).1, fun i other hi hother hsame => ?_⟩
      rcases hold i other hother with ⟨hother, -⟩ | ⟨rfl, -⟩
      · exact hmax i other hother hsame
      · omega
  · intro j call p hcall hprev
    rcases hold j call hcall with ⟨hcall, hj⟩ | ⟨rfl, rfl⟩
    · obtain ⟨before, hbefore, hsame⟩ := h.named j call p hcall hprev
      exact ⟨before, hleft p before hbefore, hsame⟩
    · obtain ⟨⟨before, hbefore, hsame, -⟩, -⟩ := h.last key p hprev
      exact ⟨before, hleft p before hbefore, hsame⟩
  · intro i j other call hcall hprev hij hother hsame
    rcases hold i other hother with ⟨hother, -⟩ | ⟨rfl, -⟩
    · rcases hold j call hcall with ⟨hcall, -⟩ | ⟨rfl, rfl⟩
      · exact h.alone i j other call hcall hprev hij hother hsame
      · exact h.empty key hprev i other hother hsame
    · rcases hold j call hcall with ⟨-, hj⟩ | ⟨rfl, -⟩ <;> omega
  · intro k id hlast
    have hlast : Function.update mutex.queues key (some mutex.calls.length) k = some id := hlast
    by_cases hk : k = key
    · subst hk
      rw [Function.update_self] at hlast
      cases hlast
      refine ⟨⟨_, List.getElem?_concat_length, rfl, fun hphase => nomatch hphase⟩,
        fun j other hother _ => ?_⟩
      rcases hold j other hother with ⟨-, hj⟩ | ⟨rfl, -⟩ <;> omega
    · rw [Function.update_of_ne hk] at hlast
      obtain ⟨⟨call, hcall, hsame, hphase⟩, hmax⟩ := h.last k id hlast
      refine ⟨⟨call, hleft id call hcall, hsame, hphase⟩, fun j other hother hsame' => ?_⟩
      rcases hold j other hother with ⟨hother, -⟩ | ⟨-, rfl⟩
      · exact hmax j other hother hsame'
      · exact absurd hsame'.symm hk
  · intro k hnone j call hcall hsame
    have hnone : Function.update mutex.queues key (some mutex.calls.length) k = none := hnone
    have hk : k ≠ key := by
      rintro rfl
      rw [Function.update_self] at hnone
      cases hnone
    rw [Function.update_of_ne hk] at hnone
    rcases hold j call hcall with ⟨hcall, -⟩ | ⟨-, rfl⟩
    · exact h.empty k hnone j call hcall hsame
    · exact absurd hsame.symm hk
  · intro id
    rw [h.live id]
    constructor
    · rintro ⟨call, hcall, hphase⟩
      exact ⟨call, hleft id call hcall, hphase⟩
    · rintro ⟨call, hcall, hphase⟩
      rcases hold id call hcall with ⟨hcall, -⟩ | ⟨-, rfl⟩
      · exact ⟨call, hcall, hphase⟩
      · cases hphase

theorem Ordered.step (h : Ordered mutex) {action : Action τ ι} {after : Mutex κ σ ι ε}
    (hstep : mutex.step body action = some after) : Ordered after := by
  cases action with
  | run key work held =>
    simp only [Mutex.step] at hstep
    split at hstep
    · cases hstep
      exact h
    · cases hstep
      exact h.append key (body key work)
  | enter id =>
    simp only [Mutex.step] at hstep
    split at hstep
    · rename_i key work previous hcall
      split at hstep
      · rename_i hready
        cases hstep
        exact h.setCall ⟨key, work, previous, .inside⟩ hcall rfl rfl (fun hp => nomatch hp)
          (fun hp => nomatch hp) (fun _ => hready) (Or.inl rfl) (fun hp => nomatch hp) rfl
      · cases hstep
    · cases hstep
  | proceed id input =>
    simp only [Mutex.step] at hstep
    split at hstep
    · rename_i key β op next previous hcall
      obtain ⟨⟨result, s⟩, -, rfl⟩ := Option.map_eq_some_iff.mp hstep
      have hlive : mutex.active id = true := (h.live id).mpr ⟨_, hcall, rfl⟩
      refine h.setCall ⟨key, next result, previous, .inside⟩ hcall rfl rfl (fun hp => nomatch hp)
        (fun hp => nomatch hp) (fun hp => nomatch hp) (Or.inl rfl) (fun hp => nomatch hp) ?_
      exact (Function.update_eq_self_iff.mpr hlive.symm).symm
    · cases hstep
  | settle id =>
    simp only [Mutex.step] at hstep
    split at hstep
    · rename_i key result previous hcall
      cases hstep
      exact h.setCall ⟨key, .done result, previous, .settled⟩ hcall rfl rfl (fun hp => nomatch hp)
        (fun hp => nomatch hp) (fun hp => nomatch hp) (Or.inl rfl) (fun hp => nomatch hp) rfl
    · cases hstep
  | settleTail id =>
    simp only [Mutex.step] at hstep
    split at hstep
    · rename_i key work previous hcall
      cases hstep
      have hidle : mutex.active id = false := by
        rw [Bool.eq_false_iff]
        intro hlive
        obtain ⟨found, hfound, hphase⟩ := (h.live id).mp hlive
        rw [hcall] at hfound
        cases hfound
        cases hphase
      refine h.setCall ⟨key, work, previous, .tailSettled⟩ hcall rfl rfl (fun hp => nomatch hp)
        (fun hp => nomatch hp) (fun hp => nomatch hp) (Or.inl rfl) (fun hp => nomatch hp) ?_
      exact (Function.update_eq_self_iff.mpr hidle.symm).symm
    · cases hstep
  | cleanUp id =>
    simp only [Mutex.step] at hstep
    split at hstep
    · rename_i key work previous hcall
      cases hstep
      have hidle : mutex.active id = false := by
        rw [Bool.eq_false_iff]
        intro hlive
        obtain ⟨found, hfound, hphase⟩ := (h.live id).mp hlive
        rw [hcall] at hfound
        cases hfound
        cases hphase
      refine h.setCall ⟨key, work, previous, .ended⟩ hcall rfl rfl (fun _ => rfl)
        (fun hp => nomatch hp) (fun hp => nomatch hp) ?_ ?_ (Function.update_eq_self_iff.mpr hidle.symm).symm
      · split
        · rename_i hlast
          exact Or.inr ⟨rfl, rfl, hlast, rfl⟩
        · exact Or.inl rfl
      · intro _
        show (if mutex.queues key = some id then Function.update mutex.queues key none
          else mutex.queues) key ≠ some id
        split
        · rw [Function.update_self]
          exact fun hsome => nomatch hsome
        · rename_i hnot
          exact hnot
    · cases hstep
  | crash =>
    cases hstep
    exact Ordered.start mutex.shared

/-! ## The sections -/

omit [DecidableEq κ] in
theorem phase_of_passed {phase : Phase} (h : phase.passed = true) : phase.isOpen = false := by
  cases phase <;> first | rfl | cases h

theorem pending_append (calls others : List (Call κ σ ι ε)) (key : κ) :
    pending (calls ++ others) key = pending calls key ++ pending others key := by
  rw [pending, List.filter_append, List.map_append]
  rfl

theorem pending_cons (call : Call κ σ ι ε) (calls : List (Call κ σ ι ε)) (key : κ) :
    pending (call :: calls) key =
      (if call.key = key ∧ call.phase.isOpen = true then [call.work] else []) ++ pending calls key := by
  unfold pending
  rw [List.filter_cons]
  simp only [Bool.and_eq_true, decide_eq_true_eq]
  split <;> rfl

omit [DecidableEq κ] in
theorem split_at {calls : List (Call κ σ ι ε)} {id : ℕ} {call : Call κ σ ι ε}
    (h : calls[id]? = some call) (next : Call κ σ ι ε) :
    calls = calls.take id ++ call :: calls.drop (id + 1) ∧
      calls.set id next = calls.take id ++ next :: calls.drop (id + 1) := by
  obtain ⟨hlt, hat⟩ := List.getElem?_eq_some_iff.mp h
  refine ⟨?_, List.set_eq_take_append_cons_drop.trans (if_pos hlt)⟩
  rw [← hat, List.getElem_cons_drop, List.take_append_drop]

/-- A call that moves on without its work changing or ending. -/
theorem pending_set_same {id : ℕ} {call next : Call κ σ ι ε} (hcall : mutex.calls[id]? = some call)
    (hkey : next.key = call.key) (hopen : next.phase.isOpen = call.phase.isOpen)
    (hwork : next.work = call.work) : pending (mutex.calls.set id next) = pending mutex.calls := by
  funext key
  obtain ⟨hold, hnew⟩ := split_at hcall next
  rw [hnew, hold]
  simp only [pending_append, pending_cons, hkey, hopen, hwork]
  rw [← hold]

/-- The work inside a key is the first of its works, and is the only one that moves. -/
theorem Ordered.pending_inside (h : Ordered mutex) {id : ℕ} {call : Call κ σ ι ε}
    (next : Call κ σ ι ε) (hcall : mutex.calls[id]? = some call) (hphase : call.phase = .inside)
    (hkey : next.key = call.key) :
    ∃ rest, pending mutex.calls call.key = call.work :: rest ∧
      pending (mutex.calls.set id next) = Function.update (pending mutex.calls) call.key
        ((if next.phase.isOpen then [next.work] else []) ++ rest) := by
  obtain ⟨hold, hnew⟩ := split_at hcall next
  have hbefore : pending (mutex.calls.take id) call.key = [] := by
    rw [pending, List.map_eq_nil_iff, List.filter_eq_nil_iff]
    intro other hother
    obtain ⟨i, hi⟩ := List.getElem?_of_mem hother
    have hlt : i < id := by
      have := (List.getElem?_eq_some_iff.mp hi).1
      rw [List.length_take] at this
      omega
    rw [List.getElem?_take_of_lt hlt] at hi
    intro hand
    simp only [Bool.and_eq_true, decide_eq_true_eq] at hand
    have := phase_of_passed (h.passed i id other call hlt hi hcall hand.1 (by rw [hphase]; nofun))
    rw [this] at hand
    cases hand.2
  refine ⟨pending (mutex.calls.drop (id + 1)) call.key, ?_, ?_⟩
  · conv_lhs => rw [hold]
    rw [pending_append, hbefore, pending_cons, if_pos ⟨rfl, by rw [hphase]; rfl⟩]
    rfl
  · funext key
    rw [hnew, pending_append, pending_cons, hkey]
    by_cases hk : key = call.key
    · subst hk
      rw [Function.update_self, hbefore, List.nil_append]
      simp only [true_and]
    · rw [Function.update_of_ne hk]
      conv_rhs => rw [hold]
      rw [pending_append, pending_cons, if_neg fun hand => hk hand.1.symm,
        if_neg fun hand => hk hand.1.symm]

/-- What one action of the machine is for the critical sections: one of their actions, or nothing. -/
theorem Ordered.sections_step [Inhabited ι] (h : Ordered mutex) {action : Action τ ι} {after : Mutex κ σ ι ε}
    (hstep : mutex.step body action = some after) :
    after.sections = mutex.sections ∨
      ∃ abstract, KeyedMutex.step body mutex.sections abstract = some after.sections := by
  cases action with
  | run key work held =>
    simp only [Mutex.step] at hstep
    split at hstep
    · cases hstep
      exact Or.inl rfl
    · cases hstep
      refine Or.inr ⟨.arrive key work, ?_⟩
      simp only [KeyedMutex.step, sections, Option.some.injEq, KeyedMutex.mk.injEq, true_and]
      funext k
      rw [pending_append, pending_cons]
      by_cases hk : k = key
      · subst hk
        rw [Function.update_self, if_pos ⟨rfl, rfl⟩]
        rfl
      · rw [Function.update_of_ne hk, if_neg fun hand => hk hand.1.symm]
        exact (List.append_nil _).symm
  | enter id =>
    simp only [Mutex.step] at hstep
    split at hstep
    · rename_i key work previous hcall
      split at hstep
      · cases hstep
        exact Or.inl (congrArg (KeyedMutex.mk mutex.shared) (pending_set_same hcall rfl rfl rfl))
      · cases hstep
    · cases hstep
  | proceed id input =>
    simp only [Mutex.step] at hstep
    split at hstep
    · rename_i key β op next previous hcall
      obtain ⟨⟨result, s⟩, hop, rfl⟩ := Option.map_eq_some_iff.mp hstep
      obtain ⟨rest, hpending, hafter⟩ :=
        h.pending_inside ⟨key, next result, previous, .inside⟩ hcall rfl rfl
      refine Or.inr ⟨.proceed key input, ?_⟩
      simp only [KeyedMutex.step, sections, hpending, hop, Option.map_some]
      exact congrArg some (congrArg (KeyedMutex.mk s) hafter.symm)
    · cases hstep
  | settle id =>
    simp only [Mutex.step] at hstep
    split at hstep
    · rename_i key result previous hcall
      cases hstep
      obtain ⟨rest, hpending, hafter⟩ :=
        h.pending_inside ⟨key, .done result, previous, .settled⟩ hcall rfl rfl
      refine Or.inr ⟨.proceed key default, ?_⟩
      simp only [KeyedMutex.step, sections, hpending]
      exact congrArg some (congrArg (KeyedMutex.mk mutex.shared) hafter.symm)
    · cases hstep
  | settleTail id =>
    simp only [Mutex.step] at hstep
    split at hstep
    · rename_i key work previous hcall
      cases hstep
      exact Or.inl (congrArg (KeyedMutex.mk mutex.shared) (pending_set_same hcall rfl rfl rfl))
    · cases hstep
  | cleanUp id =>
    simp only [Mutex.step] at hstep
    split at hstep
    · rename_i key work previous hcall
      cases hstep
      exact Or.inl (congrArg (KeyedMutex.mk mutex.shared) (pending_set_same hcall rfl rfl rfl))
    · cases hstep
  | crash =>
    cases hstep
    exact Or.inr ⟨.crash, rfl⟩

/-! ## Progress -/

/-- The mutex itself has something to do for the call. -/
def movesOn (mutex : Mutex κ σ ι ε) (body : (key : κ) → τ key → Program σ ι ε Unit) (id : ℕ) : Bool :=
  (mutex.step body (.enter id)).isSome || (mutex.step body (.settleTail id)).isSome ||
    (mutex.step body (.cleanUp id)).isSome

/-- A key with a call that is not over is never stuck: a work is inside it, or the mutex can move one of
its calls on. -/
theorem Ordered.goes_on (h : Ordered mutex) (body : (key : κ) → τ key → Program σ ι ε Unit) :
    ∀ (id : ℕ) (call : Call κ σ ι ε), mutex.calls[id]? = some call → call.phase ≠ .ended →
      ∃ (other : ℕ) (found : Call κ σ ι ε), mutex.calls[other]? = some found ∧
        found.key = call.key ∧ (found.phase = .inside ∨ mutex.movesOn body other = true) := by
  intro id
  induction id using Nat.strong_induction_on with
  | _ id ih =>
    rintro ⟨key, work, previous, phase⟩ hcall hphase
    cases phase with
    | ended => exact absurd rfl hphase
    | inside => exact ⟨id, _, hcall, rfl, Or.inl rfl⟩
    | settled => exact ⟨id, _, hcall, rfl, Or.inr (by simp [movesOn, Mutex.step, hcall])⟩
    | tailSettled => exact ⟨id, _, hcall, rfl, Or.inr (by simp [movesOn, Mutex.step, hcall])⟩
    | waiting =>
      by_cases hready : mutex.ready previous = true
      · exact ⟨id, _, hcall, rfl, Or.inr (by simp [movesOn, Mutex.step, hcall, hready])⟩
      · -- What it waits for is of its key and not settled yet.
        cases previous with
        | none => exact absurd rfl hready
        | some p =>
          obtain ⟨before, hbefore, hkey⟩ := h.named id _ p hcall rfl
          have hnot : before.phase ≠ .ended := by
            intro hover
            rw [ready, hbefore, Option.any_some, hover] at hready
            exact hready rfl
          have hearlier := ih p (h.behind id _ p hcall rfl).1 before hbefore hnot
          rwa [hkey] at hearlier

end order

end Mutex

open Mutex

section runs

variable {κ σ ι ε : Type} {τ : κ → Type} [DecidableEq κ]

/-- Every run of the promise queues is a run of the critical sections; at most one work of a key is
inside, and a hold is live exactly while its work is. -/
theorem keyedMutex_refines [Inhabited ι] (body : (key : κ) → τ key → Program σ ι ε Unit) (s : σ)
    (actions : List (Action τ ι)) (mutex : Mutex κ σ ι ε)
    (hrun : Machine.run (step body) (start s) actions = some mutex) :
    Machine.Reaches (KeyedMutex.step body) (KeyedMutex.start s) mutex.sections ∧
    (∀ (i j : ℕ) (first second : Call κ σ ι ε), mutex.calls[i]? = some first →
      mutex.calls[j]? = some second → first.key = second.key → first.phase = .inside →
        second.phase = .inside → i = j) ∧
    ∀ (id : ℕ) (key : κ), mutex.holds (some id) key = true ↔
      ∃ call, mutex.calls[id]? = some call ∧ call.key = key ∧ call.phase = .inside := by
  have hboth : Ordered mutex ∧
      Machine.Reaches (KeyedMutex.step body) (KeyedMutex.start s) mutex.sections := by
    refine Machine.run_invariant (I := fun m => Ordered m ∧
      Machine.Reaches (KeyedMutex.step body) (KeyedMutex.start s) m.sections) ?_
      ⟨Ordered.start s, Machine.Reaches.refl _⟩ hrun
    rintro before action after ⟨hordered, hreaches⟩ hstep
    refine ⟨hordered.step hstep, ?_⟩
    rcases hordered.sections_step hstep with hsame | ⟨abstract, habstract⟩
    · rw [hsame]
      exact hreaches
    · exact hreaches.trans (Machine.Reaches.of_step habstract)
  have hordered := hboth.1
  refine ⟨hboth.2, fun i j first second hfirst hsecond hsame hin hin' => ?_, fun id key => ?_⟩
  · rcases Nat.lt_trichotomy i j with hlt | heq | hlt
    · have := hordered.passed i j first second hlt hfirst hsecond hsame (by rw [hin']; nofun)
      rw [hin] at this
      cases this
    · exact heq
    · have := hordered.passed j i second first hlt hsecond hfirst hsame.symm (by rw [hin]; nofun)
      rw [hin'] at this
      cases this
  · rw [holds, Option.any_some, Bool.and_eq_true, hordered.live id]
    constructor
    · rintro ⟨hkey, call, hcall, hphase⟩
      rw [hcall, Option.any_some, decide_eq_true_eq] at hkey
      exact ⟨call, hcall, hkey, hphase⟩
    · rintro ⟨call, hcall, hkey, hphase⟩
      refine ⟨?_, call, hcall, hphase⟩
      rw [hcall, Option.any_some, decide_eq_true_eq]
      exact hkey

/-- The works of one key: each adds a number, and the first one, which adds nothing, throws. -/
def addAll (_ : Unit) (n : ℕ) : Program ℕ Unit String Unit :=
  Program.perform fun s _ => some (if n = 0 then .error "nothing to add" else .ok (), s + n)

/-- Two calls arrive, the first throws, and the second is inside when the first is cleaned up. -/
def twoCalls : List (Action (fun _ : Unit => ℕ) Unit) :=
  [.run () 0 none, .run () 5 none, .enter 0, .proceed 0 (), .settle 0, .settleTail 0, .enter 1,
    .cleanUp 0, .proceed 1 ()]

theorem keyedMutex_refines_two_calls :
    ∃ mutex, Machine.run (step addAll) (start 2) twoCalls = some mutex ∧ mutex.shared = 7 ∧
      mutex.queues () = some 1 ∧
      Machine.Reaches (KeyedMutex.step addAll) (KeyedMutex.start 2) mutex.sections := by
  have hfields : (Machine.run (step addAll) (start 2) twoCalls).map
      (fun mutex => (mutex.shared, mutex.queues ())) = some (7, some 1) := by
    decide +kernel
  obtain ⟨mutex, hmutex, hboth⟩ := Option.map_eq_some_iff.mp hfields
  simp only [Prod.mk.injEq] at hboth
  exact ⟨mutex, hmutex, hboth.1, hboth.2, (keyedMutex_refines addAll 2 twoCalls mutex hmutex).1⟩

/-- A key is never stuck, in any state of a run and whatever its works came to: a work of the key is
inside, or the mutex can move one of its calls on; and once its calls are over the map has forgotten
it. -/
theorem keyedMutex_drains (body : (key : κ) → τ key → Program σ ι ε Unit) (s : σ)
    (actions : List (Action τ ι)) (mutex : Mutex κ σ ι ε) (key : κ)
    (hrun : Machine.run (step body) (start s) actions = some mutex) :
    (∀ (id : ℕ) (call : Call κ σ ι ε), mutex.calls[id]? = some call → call.key = key →
      call.phase ≠ .ended →
        ∃ (other : ℕ) (found : Call κ σ ι ε), mutex.calls[other]? = some found ∧ found.key = key ∧
          (found.phase = .inside ∨ mutex.movesOn body other = true)) ∧
    ((∀ (id : ℕ) (call : Call κ σ ι ε), mutex.calls[id]? = some call → call.key = key →
      call.phase = .ended) → mutex.queues key = none) := by
  have hordered : Ordered mutex :=
    Machine.run_invariant (fun _ _ _ h hstep => h.step hstep) (Ordered.start s) hrun
  refine ⟨fun id call hcall hkey hphase => ?_, fun hover => ?_⟩
  · obtain ⟨other, found, hfound, hsame, hmoves⟩ := hordered.goes_on body id call hcall hphase
    exact ⟨other, found, hfound, hsame.trans hkey, hmoves⟩
  · cases hlast : mutex.queues key with
    | none => rfl
    | some id =>
      obtain ⟨⟨call, hcall, hkey, hphase⟩, -⟩ := hordered.last key id hlast
      exact absurd (hover id call hcall hkey) hphase

theorem keyedMutex_drains_two_calls :
    ∃ mutex, Machine.run (step addAll) (start 2)
        (twoCalls ++ [.settle 1, .settleTail 1, .cleanUp 1]) = some mutex ∧
      mutex.queues () = none := by
  have hphases : (Machine.run (step addAll) (start 2)
      (twoCalls ++ [.settle 1, .settleTail 1, .cleanUp 1])).map
        (fun mutex => mutex.calls.map Call.phase) = some [.ended, .ended] := by
    decide +kernel
  obtain ⟨mutex, hmutex, hover⟩ := Option.map_eq_some_iff.mp hphases
  refine ⟨mutex, hmutex, (keyedMutex_drains addAll 2 _ mutex () hmutex).2 fun id call hcall _ => ?_⟩
  have hmem : call.phase ∈ mutex.calls.map Call.phase :=
    List.mem_map_of_mem (List.mem_of_getElem? hcall)
  rw [hover] at hmem
  simpa using hmem

end runs

end QuokyPlatform.Locks
