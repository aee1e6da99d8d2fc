import QuokyPlatform.Egress.Budgets

/-!
# What the budgets guarantee over a run

The lists the budgets keep are the ends of the list of all requests that went out, so every verdict is a
function of these requests and of the breakers. A refused request is none of them. The caps follow; a
backoff is kept when no breaker that is open opens again for a shorter time.
-/

namespace QuokyPlatform.Egress
open SlidingWindow
set_option autoImplicit false
set_option maxHeartbeats 250000

/-! ## The requests that went out -/

structure Request where
  label : Label
  initiator : TrafficInitiator
  /-- With the bytes reported so far. -/
  sample : Sample

namespace Request

def sentAt (request : Request) : ℤ := request.sample.sentAt

def add (ticket : ℕ) (up down : ℤ) (request : Request) : Request :=
  { request with sample := request.sample.add ticket up down }

end Request

/-- The requests after a call. -/
def account (accepted : List Request) (tickets : ℕ) : ℤ × Call → Reply → List Request
  | (now, .request label initiator), .verdict none =>
    accepted ++ [⟨label, initiator, ⟨tickets, now, 0, 0⟩⟩]
  | (_, .addBytes ticket up down), _ => accepted.map (Request.add ticket up down)
  | _, _ => accepted

structure World where
  budgets : EgressBudgets
  accepted : List Request

section Worlds

variable (table : Label → Option LabelBudget)

def worldStep (world : World) (call : ℤ × Call) : World where
  budgets := (step table world.budgets call).2
  accepted := account world.accepted world.budgets.tickets call (step table world.budgets call).1

def runWorld (world : World) (calls : List (ℤ × Call)) : World := calls.foldl (worldStep table) world

/-- The requests that went out in a run from the start. -/
def acceptedBy (calls : List (ℤ × Call)) : List Request := (runWorld table ⟨.initial, []⟩ calls).accepted

theorem runWorld_budgets (world : World) (calls : List (ℤ × Call)) :
    (runWorld table world calls).budgets = runFrom table world.budgets calls := by
  induction calls generalizing world with
  | nil => rfl
  | cons call rest ih => exact ih (worldStep table world call)

end Worlds

def ofLabel (accepted : List Request) (label : Label) : List Request :=
  accepted.filter fun request => request.label = label

/-- The verdict as a function of the requests that went out. -/
def refusalOf (table : Label → Option LabelBudget) (accepted : List Request)
    (breakers : Label → Option BreakerState) (label : Label) (initiator : TrafficInitiator) (now : ℤ) :
    Option BudgetRefusal :=
  if isOpen (breakers label) now then some .backoff
  else
    match labelRefusal (budgetOf table label) initiator ((ofLabel accepted label).map Request.sample) now with
    | some reason => some reason
    | none =>
      if initiator = .ownerTurn then none
      else globalRefusal (accepted.map Request.sample) now

/-! ## The kept lists -/

/-- The lists are the ends of the requests in their order, all of them from the past. -/
structure Accounted (now : ℤ) (world : World) : Prop where
  inOrder : InOrder Request.sentAt world.accepted
  past : ∀ request ∈ world.accepted, request.sentAt ≤ now
  labels : ∀ label, Kept Sample.sentAt (now - DAY_MS) ((ofLabel world.accepted label).map Request.sample)
    (world.budgets.samples label)
  global : Kept Sample.sentAt (now - DAY_MS) (world.accepted.map Request.sample) world.budgets.global

section Kept

variable {now : ℤ} {whole kept : List Sample}

theorem count_kept (h : Kept Sample.sentAt (now - DAY_MS) whole kept)
    (horder : InOrder Sample.sentAt whole) {since : ℤ} (hsince : now - DAY_MS ≤ since) :
    count kept since = count whole since := by
  unfold count
  rw [h.recent_eq horder hsince, takeWhile_reverse_eq_filter horder]

theorem bytes_kept (h : Kept Sample.sentAt (now - DAY_MS) whole kept)
    (horder : InOrder Sample.sentAt whole) {since : ℤ} (hsince : now - DAY_MS ≤ since)
    (size : Sample → ℕ) : bytes kept since size = bytes whole since size := by
  unfold bytes
  rw [h.recent_eq horder hsince, takeWhile_reverse_eq_filter horder]

theorem labelRefusal_kept (h : Kept Sample.sentAt (now - DAY_MS) whole kept)
    (horder : InOrder Sample.sentAt whole) (budget : LabelBudget) (initiator : TrafficInitiator) :
    labelRefusal budget initiator kept now = labelRefusal budget initiator whole now := by
  have hminute : now - DAY_MS ≤ now - MINUTE_MS := by simp only [DAY_MS, HOUR_MS, MINUTE_MS]; omega
  have hhour : now - DAY_MS ≤ now - HOUR_MS := by simp only [DAY_MS, HOUR_MS, MINUTE_MS]; omega
  unfold labelRefusal
  rw [count_kept h horder hminute, count_kept h horder hhour, bytes_kept h horder hhour,
    bytes_kept h horder (le_refl _)]

theorem globalRefusal_kept (h : Kept Sample.sentAt (now - DAY_MS) whole kept)
    (horder : InOrder Sample.sentAt whole) : globalRefusal kept now = globalRefusal whole now := by
  unfold globalRefusal
  rw [bytes_kept h horder (le_refl _), bytes_kept h horder (le_refl _)]

end Kept

namespace Accounted

variable {table : Label → Option LabelBudget} {now later : ℤ} {world : World}

theorem mono (h : Accounted now world) (hle : now ≤ later) : Accounted later world where
  inOrder := h.inOrder
  past := fun request hrequest => le_trans (h.past request hrequest) hle
  labels := fun label => (h.labels label).mono (by omega)
  global := h.global.mono (by omega)

theorem sorted (h : Accounted now world) :
    InOrder Sample.sentAt (world.accepted.map Request.sample) :=
  List.pairwise_map.mpr h.inOrder

theorem sorted_label (h : Accounted now world) (label : Label) :
    InOrder Sample.sentAt ((ofLabel world.accepted label).map Request.sample) :=
  List.pairwise_map.mpr (h.inOrder.filter _)

/-- The same requests with shorter lists. -/
theorem pruned (h : Accounted now world) {budgets : EgressBudgets}
    (hlabels : ∀ label, budgets.samples label = world.budgets.samples label ∨
      budgets.samples label = pruneDay now (world.budgets.samples label))
    (hglobal : budgets.global = world.budgets.global ∨
      budgets.global = pruneDay now world.budgets.global) :
    Accounted now ⟨budgets, world.accepted⟩ where
  inOrder := h.inOrder
  past := h.past
  labels := by
    intro label
    rcases hlabels label with hsame | hprune
    · exact hsame.symm ▸ h.labels label
    · exact hprune.symm ▸ (h.labels label).prune
  global := by
    rcases hglobal with hsame | hprune
    · exact hsame.symm ▸ h.global
    · exact hprune.symm ▸ h.global.prune

end Accounted

/-! ## One call -/

/-- Nothing but the lists differs. -/
def SameRest (budgets other : EgressBudgets) : Prop :=
  other.breakers = budgets.breakers ∧ other.alertedDay = budgets.alertedDay ∧
    other.tickets = budgets.tickets

section Steps

variable {table : Label → Option LabelBudget} {now later : ℤ} {world : World} {label : Label}
  {initiator : TrafficInitiator}

theorem check_spec (h : Accounted now world) : ∃ budgets,
    check table world.budgets label initiator now =
      (refusalOf table world.accepted world.budgets.breakers label initiator now, budgets) ∧
    Accounted now ⟨budgets, world.accepted⟩ ∧ SameRest world.budgets budgets := by
  unfold check refusalOf
  by_cases hopen : isOpen (world.budgets.breakers label) now = true
  · rw [if_pos hopen, if_pos hopen]
    exact ⟨_, rfl, h, rfl, rfl, rfl⟩
  · rw [if_neg hopen, if_neg hopen]
    simp only []
    have hsamples : ∀ other, Function.update world.budgets.samples label
        (pruneDay now (world.budgets.samples label)) other = world.budgets.samples other ∨
        Function.update world.budgets.samples label
          (pruneDay now (world.budgets.samples label)) other = pruneDay now (world.budgets.samples other) := by
      intro other
      by_cases hother : other = label
      · subst hother
        exact .inr (Function.update_self _ _ _)
      · exact .inl (Function.update_of_ne hother _ _)
    have hlabel : labelRefusal (budgetOf table label) initiator
        (pruneDay now (world.budgets.samples label)) now =
          labelRefusal (budgetOf table label) initiator
            ((ofLabel world.accepted label).map Request.sample) now :=
      labelRefusal_kept (h.labels label).prune (h.sorted_label label) _ _
    have hglobal : globalRefusal (pruneDay now world.budgets.global) now =
        globalRefusal (world.accepted.map Request.sample) now :=
      globalRefusal_kept h.global.prune h.sorted
    rw [hlabel]
    cases labelRefusal (budgetOf table label) initiator
        ((ofLabel world.accepted label).map Request.sample) now with
    | some reason => exact ⟨_, rfl, h.pruned hsamples (.inl rfl), rfl, rfl, rfl⟩
    | none =>
      by_cases howner : initiator = .ownerTurn
      · simp only [if_pos howner]
        exact ⟨_, rfl, h.pruned hsamples (.inl rfl), rfl, rfl, rfl⟩
      · simp only [if_neg howner]
        exact ⟨_, Prod.ext hglobal rfl, h.pruned hsamples (.inr rfl), rfl, rfl, rfl⟩

theorem ofLabel_concat (accepted : List Request) (request : Request) (label : Label) :
    ofLabel (accepted ++ [request]) label =
      ofLabel accepted label ++ if request.label = label then [request] else [] := by
  unfold ofLabel
  rw [List.filter_append]
  by_cases hlabel : request.label = label
  · rw [if_pos hlabel, List.filter_cons, decide_eq_true hlabel]
    rfl
  · rw [if_neg hlabel, List.filter_cons, decide_eq_false hlabel]
    rfl

theorem Accounted.push (h : Accounted now world) (label : Label) (initiator : TrafficInitiator) :
    Accounted now ⟨push world.budgets label now,
      world.accepted ++ [⟨label, initiator, ⟨world.budgets.tickets, now, 0, 0⟩⟩]⟩ where
  inOrder := by
    refine List.pairwise_append.mpr ⟨h.inOrder, List.pairwise_singleton _ _, fun request hrequest => ?_⟩
    exact List.forall_mem_singleton.mpr (h.past request hrequest)
  past := List.forall_mem_append.mpr ⟨h.past, List.forall_mem_singleton.mpr (le_refl now)⟩
  labels := by
    intro other
    show Kept _ _ _ (Function.update world.budgets.samples label
      (world.budgets.samples label ++ [⟨world.budgets.tickets, now, 0, 0⟩]) other)
    rw [ofLabel_concat, List.map_append]
    by_cases hother : other = label
    · subst hother
      rw [Function.update_self, if_pos rfl]
      exact (h.labels other).concat _
    · rw [Function.update_of_ne hother, if_neg (Ne.symm hother)]
      exact (List.append_nil _).symm ▸ h.labels other
  global := by
    rw [List.map_append]
    exact h.global.concat _

theorem Accounted.addBytes (h : Accounted now world) (ticket : ℕ) (up down : ℤ) :
    Accounted now ⟨addBytes world.budgets ticket up down,
      world.accepted.map (Request.add ticket up down)⟩ := by
  have htime : ∀ sample : Sample, (sample.add ticket up down).sentAt = sample.sentAt := by
    intro sample
    unfold Sample.add
    split
    · rfl
    · rfl
  have hsent : ∀ request : Request, (request.add ticket up down).sentAt = request.sentAt :=
    fun request => htime request.sample
  have hsamples : ∀ requests : List Request, (requests.map (Request.add ticket up down)).map Request.sample =
      (requests.map Request.sample).map (Sample.add ticket up down) := by
    intro requests
    rw [List.map_map, List.map_map]
    rfl
  have hlabel : ∀ label, ofLabel (world.accepted.map (Request.add ticket up down)) label =
      (ofLabel world.accepted label).map (Request.add ticket up down) := by
    intro label
    unfold ofLabel
    rw [List.filter_map]
    rfl
  exact {
    inOrder := by
      refine List.pairwise_map.mpr (h.inOrder.imp fun {a b} hle => ?_)
      rw [hsent, hsent]
      exact hle
    past := by
      rw [List.forall_mem_map]
      exact fun request hrequest => (hsent request).symm ▸ h.past request hrequest
    labels := by
      intro label
      rw [hlabel, hsamples]
      exact (h.labels label).map htime
    global := by
      rw [hsamples]
      exact h.global.map htime }

/-- What a request is answered, and what it leaves. -/
theorem step_request (h : Accounted now world) : ∃ budgets,
    Accounted now ⟨budgets, world.accepted⟩ ∧ SameRest world.budgets budgets ∧
    step table world.budgets (now, .request label initiator) =
      (.verdict (refusalOf table world.accepted world.budgets.breakers label initiator now),
        if refusalOf table world.accepted world.budgets.breakers label initiator now = none then
          push budgets label now else budgets) := by
  obtain ⟨budgets, hcheck, haccounted, hrest⟩ := @check_spec table now world label initiator h
  refine ⟨budgets, haccounted, hrest, ?_⟩
  unfold step admitRequest
  simp only []
  rw [hcheck]
  cases refusalOf table world.accepted world.budgets.breakers label initiator now with
  | none => rfl
  | some reason => rfl

theorem worldStep_accounted (h : Accounted now world) {call : ℤ × Call} (hle : now ≤ call.1) :
    Accounted call.1 (worldStep table world call) := by
  have hnow := h.mono hle
  obtain ⟨later, call⟩ := call
  cases call with
  | request label initiator =>
    obtain ⟨budgets, haccounted, hrest, hstep⟩ := @step_request table later world label initiator hnow
    unfold worldStep
    rw [hstep]
    cases refusalOf table world.accepted world.budgets.breakers label initiator later with
    | some reason => exact haccounted
    | none =>
      have hpush := haccounted.push label initiator
      rw [hrest.2.2] at hpush
      exact hpush
  | addBytes ticket up down => exact hnow.addBytes ticket up down
  | recordOutcome label status retryAfterSeconds =>
    exact hnow.pruned (fun _ => .inl rfl) (.inr rfl)

end Steps

/-! ## Runs -/

section Runs

variable {table : Label → Option LabelBudget}

theorem accounted_initial (now : ℤ) : Accounted now ⟨.initial, []⟩ where
  inOrder := List.Pairwise.nil
  past := fun _ h => absurd h List.not_mem_nil
  labels := fun _ => Kept.refl _ _
  global := Kept.refl _ _

/-- A run whose calls are in order and not after `later`. -/
theorem runWorld_accounted {start later : ℤ} {world : World} (h : Accounted start world)
    {calls : List (ℤ × Call)} (hclock : calls.Pairwise fun a b => a.1 ≤ b.1)
    (hstart : ∀ call ∈ calls, start ≤ call.1) (hlater : ∀ call ∈ calls, call.1 ≤ later)
    (hle : start ≤ later) : Accounted later (runWorld table world calls) := by
  induction calls generalizing start world with
  | nil => exact h.mono hle
  | cons call rest ih =>
    obtain ⟨hfirst, hrest⟩ := List.pairwise_cons.mp hclock
    exact ih (worldStep_accounted h (hstart call List.mem_cons_self)) hrest hfirst
      (fun other hother => hlater other (List.mem_cons_of_mem _ hother))
      (hlater call List.mem_cons_self)

theorem accounted_before {before rest : List (ℤ × Call)} {call : ℤ × Call}
    (hclock : (before ++ call :: rest).Pairwise fun a b => a.1 ≤ b.1) :
    Accounted call.1 (runWorld table ⟨.initial, []⟩ before) := by
  obtain ⟨hbefore, -, hcross⟩ := List.pairwise_append.mp hclock
  have hlater : ∀ other ∈ before, other.1 ≤ call.1 := fun other hother =>
    hcross other hother call List.mem_cons_self
  cases before with
  | nil => exact accounted_initial _
  | cons first before =>
    exact runWorld_accounted (accounted_initial first.1) hbefore
      (List.forall_mem_cons.mpr ⟨le_refl _, (List.pairwise_cons.mp hbefore).1⟩) hlater
      (hlater first List.mem_cons_self)

end Runs

/-! ## The caps -/

section Caps

variable {table : Label → Option LabelBudget} {accepted : List Request} {label : Label}
  {initiator : TrafficInitiator} {now : ℤ}

def factorOf (initiator : TrafficInitiator) : ℕ :=
  if initiator = .ownerTurn then OWNER_TURN_RATE_FACTOR else 1

/-- A request that is not refused is below every cap. -/
theorem of_not_refused {breakers : Label → Option BreakerState}
    (h : refusalOf table accepted breakers label initiator now = none) :
    isOpen (breakers label) now = false ∧
      labelRefusal (budgetOf table label) initiator ((ofLabel accepted label).map Request.sample) now = none ∧
      (initiator ≠ .ownerTurn → globalRefusal (accepted.map Request.sample) now = none) := by
  unfold refusalOf at h
  by_cases hopen : isOpen (breakers label) now = true
  · rw [if_pos hopen] at h
    cases h
  · rw [if_neg hopen] at h
    cases hlabel : labelRefusal (budgetOf table label) initiator
        ((ofLabel accepted label).map Request.sample) now with
    | some reason =>
      rw [hlabel] at h
      cases h
    | none =>
      rw [hlabel] at h
      refine ⟨Bool.not_eq_true _ ▸ hopen, rfl, fun howner => ?_⟩
      simp only [if_neg howner] at h
      exact h

theorem of_labelRefusal {budget : LabelBudget} {samples : List Sample}
    (h : labelRefusal budget initiator samples now = none) :
    rateReached budget initiator budget.perMinute (count samples (now - MINUTE_MS)) = false ∧
      rateReached budget initiator budget.perHour (count samples (now - HOUR_MS)) = false ∧
      reached budget.bytesPerHour (bytes samples (now - HOUR_MS) fun s => s.up + s.down) = false ∧
      reached budget.bytesDownPerDay (bytes samples (now - DAY_MS) Sample.down) = false := by
  unfold labelRefusal at h
  split at h
  · cases h
  · rename_i hminute
    split at h
    · cases h
    · rename_i hhour
      split at h
      · cases h
      · rename_i hvolume
        split at h
        · cases h
        · rename_i hday
          exact ⟨Bool.not_eq_true _ ▸ hminute, Bool.not_eq_true _ ▸ hhour,
            Bool.not_eq_true _ ▸ hvolume, Bool.not_eq_true _ ▸ hday⟩

theorem of_reached {cap : Option ℕ} {n limit : ℕ} (h : reached cap n = false) (hcap : cap = some limit) :
    n < limit := by
  subst hcap
  exact Nat.lt_of_not_le (of_decide_eq_false h)

theorem of_rateReached {budget : LabelBudget} {cap : Option ℕ} {n limit : ℕ}
    (h : rateReached budget initiator cap n = false) (hexempt : budget.rateExempt = [])
    (hcap : cap = some limit) : n < limit * factorOf initiator := by
  unfold rateReached at h
  simp only [] at h
  rw [hexempt] at h
  have happlies : decide (initiator ∉ ([] : List TrafficInitiator)) = true :=
    decide_eq_true List.not_mem_nil
  rw [happlies, Bool.true_and, hcap] at h
  exact of_reached h rfl

theorem of_globalRefusal {global : List Sample} (h : globalRefusal global now = none) :
    ∀ direction, bytes global (now - DAY_MS) (fun s => s.bytes direction) < globalBudget direction := by
  unfold globalRefusal at h
  split at h
  · cases h
  · rename_i hdown
    split at h
    · cases h
    · rename_i hup
      intro direction
      cases direction with
      | up => exact Nat.lt_of_not_le hup
      | down => exact Nat.lt_of_not_le hdown

/-- The requests of a label in the interval of a width from `start` on. -/
def inWindow (accepted : List Request) (label : Label) (start width : ℤ) : List Request :=
  (ofLabel accepted label).filter fun request =>
    start ≤ request.sentAt ∧ request.sentAt < start + width

/-- Under a cap, an interval holds three times the cap, and the cap without owner turns. -/
def WindowHolds (accepted : List Request) (label : Label) (width : ℤ) (cap : ℕ) : Prop :=
  ∀ start, (inWindow accepted label start width).length ≤ 3 * cap ∧
    ((∀ request ∈ inWindow accepted label start width, request.initiator ≠ .ownerTurn) →
      (inWindow accepted label start width).length ≤ cap)

/-- The caps of every label without exempt initiators. -/
def WindowsHold (table : Label → Option LabelBudget) (accepted : List Request) : Prop :=
  ∀ label, (budgetOf table label).rateExempt = [] →
    (∀ cap, (budgetOf table label).perMinute = some cap → WindowHolds accepted label MINUTE_MS cap) ∧
    ∀ cap, (budgetOf table label).perHour = some cap → WindowHolds accepted label HOUR_MS cap

def CapPaced (accepted : List Request) (label : Label) (width : ℤ) (cap : ℕ) : Prop :=
  Paced Request.sentAt width (fun request => cap * factorOf request.initiator) (ofLabel accepted label)

theorem CapPaced.windowHolds {width : ℤ} {cap : ℕ} (h : CapPaced accepted label width cap) :
    WindowHolds accepted label width cap := by
  intro start
  constructor
  · refine h.window_le start fun request _ _ _ => ?_
    unfold factorOf
    split
    · exact (Nat.mul_comm _ _).le
    · omega
  · intro howner
    refine h.window_le start fun request hrequest hlow hhigh => ?_
    have hmem : request ∈ inWindow accepted label start width :=
      List.mem_filter.mpr ⟨hrequest, decide_eq_true ⟨hlow, hhigh⟩⟩
    unfold factorOf
    rw [if_neg (howner request hmem), Nat.mul_one]

theorem CapPaced.concat {width : ℤ} {cap : ℕ} (h : CapPaced accepted label width cap) {request : Request}
    (hcount : request.label = label →
      (after Request.sentAt (request.sentAt - width) (ofLabel accepted label)).length <
        cap * factorOf request.initiator) : CapPaced (accepted ++ [request]) label width cap := by
  unfold CapPaced
  rw [ofLabel_concat]
  by_cases hlabel : request.label = label
  · rw [if_pos hlabel]
    exact Paced.concat h (hcount hlabel)
  · rw [if_neg hlabel, List.append_nil]
    exact h

/-- The bytes reported so far for the requests after `since`. -/
def reportedBytes (requests : List Request) (since : ℤ) (size : Sample → ℕ) : ℕ :=
  ((after Request.sentAt since requests).map fun request => size request.sample).sum

theorem after_map_sample (requests : List Request) (since : ℤ) :
    after Sample.sentAt since (requests.map Request.sample) =
      (after Request.sentAt since requests).map Request.sample := by
  unfold after
  rw [List.filter_map]
  rfl

theorem recent_requests {requests : List Request} (horder : InOrder Request.sentAt requests) (since : ℤ) :
    recent Sample.sentAt since (requests.map Request.sample) =
      ((after Request.sentAt since requests).map Request.sample).reverse := by
  have hsorted : InOrder Sample.sentAt (requests.map Request.sample) := List.pairwise_map.mpr horder
  rw [takeWhile_reverse_eq_filter hsorted, after_map_sample]

theorem count_requests {requests : List Request} (horder : InOrder Request.sentAt requests) (since : ℤ) :
    count (requests.map Request.sample) since = (after Request.sentAt since requests).length := by
  unfold count
  rw [recent_requests horder, List.length_reverse, List.length_map]

theorem bytes_requests {requests : List Request} (horder : InOrder Request.sentAt requests) (since : ℤ)
    (size : Sample → ℕ) :
    bytes (requests.map Request.sample) since size = reportedBytes requests since size := by
  unfold bytes reportedBytes
  rw [recent_requests horder, List.map_reverse, List.sum_reverse, List.map_map]
  rfl

/-- The bytes caps of a label and of the day. -/
def BytesBelow (table : Label → Option LabelBudget) (accepted : List Request) (label : Label)
    (initiator : TrafficInitiator) (now : ℤ) : Prop :=
  (∀ cap, (budgetOf table label).bytesPerHour = some cap →
      reportedBytes (ofLabel accepted label) (now - HOUR_MS) (fun s => s.up + s.down) < cap) ∧
    (∀ cap, (budgetOf table label).bytesDownPerDay = some cap →
      reportedBytes (ofLabel accepted label) (now - DAY_MS) Sample.down < cap) ∧
    (initiator ≠ .ownerTurn → ∀ direction,
      reportedBytes accepted (now - DAY_MS) (fun s => s.bytes direction) < globalBudget direction)

theorem bytesBelow_of_admitted {breakers : Label → Option BreakerState}
    (horder : InOrder Request.sentAt accepted)
    (h : refusalOf table accepted breakers label initiator now = none) :
    BytesBelow table accepted label initiator now := by
  obtain ⟨-, hlabel, hglobal⟩ := of_not_refused h
  obtain ⟨-, -, hhour, hday⟩ := of_labelRefusal hlabel
  have hsorted : InOrder Request.sentAt (ofLabel accepted label) := horder.filter _
  rw [bytes_requests hsorted] at hhour hday
  refine ⟨fun cap hcap => of_reached hhour hcap, fun cap hcap => of_reached hday hcap,
    fun howner direction => ?_⟩
  rw [← bytes_requests horder]
  exact of_globalRefusal (hglobal howner) direction

def CapsPaced (table : Label → Option LabelBudget) (accepted : List Request) : Prop :=
  ∀ label, (budgetOf table label).rateExempt = [] →
    (∀ cap, (budgetOf table label).perMinute = some cap → CapPaced accepted label MINUTE_MS cap) ∧
    ∀ cap, (budgetOf table label).perHour = some cap → CapPaced accepted label HOUR_MS cap

theorem capsPaced_admitted {breakers : Label → Option BreakerState} (ticket : ℕ)
    (h : CapsPaced table accepted) (horder : InOrder Request.sentAt accepted)
    (hadmitted : refusalOf table accepted breakers label initiator now = none) :
    CapsPaced table (accepted ++ [⟨label, initiator, ⟨ticket, now, 0, 0⟩⟩]) := by
  obtain ⟨-, hlabel, -⟩ := of_not_refused hadmitted
  obtain ⟨hminute, hhour, -, -⟩ := of_labelRefusal hlabel
  have hsorted : InOrder Request.sentAt (ofLabel accepted label) := horder.filter _
  rw [count_requests hsorted] at hminute hhour
  intro other hexempt
  refine ⟨fun cap hcap => ?_, fun cap hcap => ?_⟩
  · refine ((h other hexempt).1 cap hcap).concat fun hsame => ?_
    subst hsame
    exact of_rateReached hminute hexempt hcap
  · refine ((h other hexempt).2 cap hcap).concat fun hsame => ?_
    subst hsame
    exact of_rateReached hhour hexempt hcap

theorem capsPaced_reported (h : CapsPaced table accepted) (ticket : ℕ) (up down : ℤ) :
    CapsPaced table (accepted.map (Request.add ticket up down)) := by
  have htime : ∀ request : Request, (request.add ticket up down).sentAt = request.sentAt := by
    intro request
    show (request.sample.add ticket up down).sentAt = request.sample.sentAt
    unfold Sample.add
    split
    · rfl
    · rfl
  have hmap : ∀ label width cap, CapPaced accepted label width cap →
      CapPaced (accepted.map (Request.add ticket up down)) label width cap := by
    intro label width cap hpaced
    unfold CapPaced ofLabel
    rw [List.filter_map]
    exact Paced.map hpaced htime fun _ => rfl
  intro label hexempt
  exact ⟨fun cap hcap => hmap _ _ _ ((h label hexempt).1 cap hcap),
    fun cap hcap => hmap _ _ _ ((h label hexempt).2 cap hcap)⟩

theorem worldStep_paced {world : World} {start : ℤ} (haccounted : Accounted start world)
    (h : CapsPaced table world.accepted) {call : ℤ × Call} (hle : start ≤ call.1) :
    CapsPaced table (worldStep table world call).accepted := by
  obtain ⟨later, call⟩ := call
  cases call with
  | request label initiator =>
    obtain ⟨budgets, -, -, hstep⟩ :=
      @step_request table later world label initiator (haccounted.mono hle)
    unfold worldStep
    rw [hstep]
    cases hrefusal : refusalOf table world.accepted world.budgets.breakers label initiator later with
    | some reason => exact h
    | none => exact capsPaced_admitted _ h haccounted.inOrder hrefusal
  | addBytes ticket up down => exact capsPaced_reported h ticket up down
  | recordOutcome label status retryAfterSeconds => exact h

theorem runWorld_paced {world : World} {start : ℤ} (haccounted : Accounted start world)
    (h : CapsPaced table world.accepted) {calls : List (ℤ × Call)}
    (hclock : calls.Pairwise fun a b => a.1 ≤ b.1) (hstart : ∀ call ∈ calls, start ≤ call.1) :
    CapsPaced table (runWorld table world calls).accepted := by
  induction calls generalizing start world with
  | nil => exact h
  | cons call rest ih =>
    obtain ⟨hfirst, hrest⟩ := List.pairwise_cons.mp hclock
    have hle := hstart call List.mem_cons_self
    exact ih (worldStep_accounted haccounted hle) (worldStep_paced haccounted h hle) hrest hfirst

theorem windowsHold_run {calls : List (ℤ × Call)} (hclock : calls.Pairwise fun a b => a.1 ≤ b.1) :
    WindowsHold table (acceptedBy table calls) := by
  have hempty : CapsPaced table [] := fun _ _ => ⟨fun _ _ => Paced.nil, fun _ _ => Paced.nil⟩
  have hpaced : CapsPaced table (acceptedBy table calls) := by
    cases calls with
    | nil => exact hempty
    | cons call rest =>
      exact runWorld_paced (accounted_initial call.1) hempty hclock
        (List.forall_mem_cons.mpr ⟨le_refl _, (List.pairwise_cons.mp hclock).1⟩)
  exact fun label hexempt => ⟨fun cap hcap => ((hpaced label hexempt).1 cap hcap).windowHolds,
    fun cap hcap => ((hpaced label hexempt).2 cap hcap).windowHolds⟩

end Caps

/-! ## Refused requests -/

section Refused

variable {table : Label → Option LabelBudget} {now : ℤ}

/-- Worlds that differ in what their lists dropped. -/
structure Twins (now : ℤ) (world other : World) : Prop where
  first : Accounted now world
  second : Accounted now other
  accepted : other.accepted = world.accepted
  rest : SameRest world.budgets other.budgets

theorem alert_kept {whole kept : List Sample} (h : Kept Sample.sentAt (now - DAY_MS) whole kept)
    (horder : InOrder Sample.sentAt whole) (direction : Direction)
    (state : (Direction → Option ℤ) × List BudgetEvent) :
    alert kept now direction state = alert whole now direction state := by
  unfold alert
  rw [bytes_kept h horder (le_refl _)]

/-- The events and the alerts as functions of the requests that went out. -/
theorem recordOutcome_spec {world : World} (h : Accounted now world) (label : Label)
    (status retryAfterSeconds : Option ℕ) :
    let next := nextBreakers table world.budgets.breakers label status retryAfterSeconds now
    let whole := world.accepted.map Request.sample
    let alerts := alert whole now .up (alert whole now .down (world.budgets.alertedDay, next.2))
    (recordOutcome table world.budgets label status retryAfterSeconds now).1 = alerts.2 ∧
      (recordOutcome table world.budgets label status retryAfterSeconds now).2.breakers = next.1 ∧
      (recordOutcome table world.budgets label status retryAfterSeconds now).2.alertedDay = alerts.1 ∧
      (recordOutcome table world.budgets label status retryAfterSeconds now).2.tickets =
        world.budgets.tickets := by
  intro next whole alerts
  have hkept : ∀ direction state, alert (pruneDay now world.budgets.global) now direction state =
      alert whole now direction state := alert_kept h.global.prune h.sorted
  have halerts : alert (pruneDay now world.budgets.global) now .up
      (alert (pruneDay now world.budgets.global) now .down (world.budgets.alertedDay, next.2)) = alerts := by
    rw [hkept, hkept]
  exact ⟨congrArg Prod.snd halerts, rfl, congrArg Prod.fst halerts, rfl⟩

theorem Twins.mono {world other : World} {later : ℤ} (h : Twins now world other) (hle : now ≤ later) :
    Twins later world other := ⟨h.first.mono hle, h.second.mono hle, h.accepted, h.rest⟩

/-- Their replies are the same, and they stay twins. -/
theorem twins_step {world other : World} {call : ℤ × Call} (h : Twins now world other)
    (hle : now ≤ call.1) : (step table other.budgets call).1 = (step table world.budgets call).1 ∧
      Twins call.1 (worldStep table world call) (worldStep table other call) := by
  have hfirst := @worldStep_accounted table now _ h.first call hle
  have hsecond := @worldStep_accounted table now _ h.second call hle
  obtain ⟨hbreakers, halerted, htickets⟩ := h.rest
  obtain ⟨later, call⟩ := call
  have hlater := h.mono hle
  cases call with
  | request label initiator =>
    obtain ⟨budgets, -, hrest, hstep⟩ := @step_request table later world label initiator hlater.first
    obtain ⟨budgets', -, hrest', hstep'⟩ := @step_request table later other label initiator hlater.second
    rw [h.accepted, hbreakers] at hstep'
    refine ⟨by rw [hstep, hstep'], hfirst, hsecond, ?_, ?_⟩
    · show account other.accepted other.budgets.tickets _ (step table other.budgets _).1 =
        account world.accepted world.budgets.tickets _ (step table world.budgets _).1
      rw [hstep, hstep', htickets, h.accepted]
    · show SameRest (step table world.budgets _).2 (step table other.budgets _).2
      rw [hstep, hstep']
      have hsame : SameRest budgets budgets' :=
        ⟨by rw [hrest'.1, hrest.1, hbreakers], by rw [hrest'.2.1, hrest.2.1, halerted],
          by rw [hrest'.2.2, hrest.2.2, htickets]⟩
      cases refusalOf table world.accepted world.budgets.breakers label initiator later with
      | some reason => exact hsame
      | none => exact ⟨hsame.1, hsame.2.1, congrArg (· + 1) hsame.2.2⟩
  | addBytes ticket up down =>
    refine ⟨rfl, hfirst, hsecond, ?_, hbreakers, halerted, htickets⟩
    exact congrArg (List.map (Request.add ticket up down)) h.accepted
  | recordOutcome label status retryAfterSeconds =>
    obtain ⟨hevents, hnext, halerts, hcount⟩ :=
      @recordOutcome_spec table later world hlater.first label status retryAfterSeconds
    obtain ⟨hevents', hnext', halerts', hcount'⟩ :=
      @recordOutcome_spec table later other hlater.second label status retryAfterSeconds
    rw [h.accepted, hbreakers, halerted] at hevents' halerts'
    rw [hbreakers] at hnext'
    refine ⟨congrArg Reply.events (hevents'.trans hevents.symm), hfirst, hsecond, h.accepted, ?_⟩
    exact ⟨hnext'.trans hnext.symm, halerts'.trans halerts.symm,
      hcount'.trans (htickets.trans hcount.symm)⟩

theorem twins_replies {world other : World} {start : ℤ} (h : Twins start world other)
    {calls : List (ℤ × Call)} (hclock : calls.Pairwise fun a b => a.1 ≤ b.1)
    (hstart : ∀ call ∈ calls, start ≤ call.1) :
    repliesFrom table other.budgets calls = repliesFrom table world.budgets calls := by
  induction calls generalizing start world other with
  | nil => rfl
  | cons call rest ih =>
    obtain ⟨hfirst, hrest⟩ := List.pairwise_cons.mp hclock
    obtain ⟨hreply, htwins⟩ := @twins_step table start _ _ _ h (hstart call List.mem_cons_self)
    rw [repliesFrom, repliesFrom, hreply]
    exact congrArg _ (ih htwins hrest hfirst)

/-- A refused request changes no later reply. -/
theorem refused_changes_nothing {before rest : List (ℤ × Call)} {label : Label}
    {initiator : TrafficInitiator}
    (hclock : (before ++ (now, Call.request label initiator) :: rest).Pairwise fun a b => a.1 ≤ b.1)
    (hrefused : (step table (runFrom table .initial before) (now, .request label initiator)).1 ≠
      .verdict none) :
    repliesFrom table (step table (runFrom table .initial before) (now, .request label initiator)).2 rest =
      repliesFrom table (runFrom table .initial before) rest := by
  have haccounted := @accounted_before table _ _ _ hclock
  have hworld : runFrom table .initial before = (runWorld table ⟨.initial, []⟩ before).budgets :=
    (runWorld_budgets table ⟨.initial, []⟩ before).symm
  rw [hworld] at hrefused ⊢
  obtain ⟨budgets, hbudgets, hsame, hstep⟩ := @step_request table now _ label initiator haccounted
  have hnot : ¬ refusalOf table (runWorld table ⟨.initial, []⟩ before).accepted
      (runWorld table ⟨.initial, []⟩ before).budgets.breakers label initiator now = none := by
    intro hnone
    rw [hstep, hnone] at hrefused
    exact hrefused rfl
  rw [if_neg hnot] at hstep
  rw [hstep]
  obtain ⟨hlater, hrest⟩ := List.pairwise_cons.mp (List.pairwise_append.mp hclock).2.1
  exact twins_replies ⟨haccounted, hbudgets, rfl, hsame⟩ hrest hlater

end Refused

/-! ## The backoff -/

section Backoff

variable (table : Label → Option LabelBudget)

def breakerOf (budgets : EgressBudgets) (label : Label) : BreakerState :=
  (budgets.breakers label).getD ⟨0, 0, 0⟩

/-- A breaker that this call opens is not open for longer already. -/
def Unshortened (budgets : EgressBudgets) : ℤ × Call → Prop
  | (now, .recordOutcome label (some status) retryAfterSeconds) =>
    (budgetOf table label).breaker = true → isFailure status = true →
      BREAKER_THRESHOLD ≤ (breakerOf budgets label).consecutiveFailures + 1 →
        (breakerOf budgets label).openUntil ≤
          now + openFor ((breakerOf budgets label).opens + 1) retryAfterSeconds
  | _ => True

def RunUnshortened : EgressBudgets → List (ℤ × Call) → Prop
  | _, [] => True
  | budgets, call :: rest =>
    Unshortened table budgets call ∧ RunUnshortened (step table budgets call).2 rest

/-- An answer below 400 for the label. -/
def Succeeds (label : Label) (call : ℤ × Call) : Prop :=
  ∃ now status retryAfterSeconds, call = (now, .recordOutcome label (some status) retryAfterSeconds) ∧
    status < 400

/-- A breaker that opened until a time refuses until then, unless an answer below 400 comes between. -/
def BackoffKept (calls : List (ℤ × Call)) : Prop :=
  ∀ before between rest label initiator now state,
    calls = before ++ (between ++ (now, .request label initiator) :: rest) →
    (runFrom table .initial before).breakers label = some state → now < state.openUntil →
    (∀ call ∈ between, ¬ Succeeds label call) →
      (step table (runFrom table .initial (before ++ between)) (now, .request label initiator)).1 =
        .verdict (some .backoff)

variable {table}

theorem answered_openUntil {state : BreakerState} {label : Label} {status : ℕ}
    {retryAfterSeconds : Option ℕ} {now : ℤ} (hsuccess : ¬ status < 400)
    (h : isFailure status = true → BREAKER_THRESHOLD ≤ state.consecutiveFailures + 1 →
      state.openUntil ≤ now + openFor (state.opens + 1) retryAfterSeconds) :
    state.openUntil ≤ (answered state label status retryAfterSeconds now).1.openUntil := by
  unfold answered
  by_cases hfailure : isFailure status = true
  · rw [if_pos hfailure]
    by_cases hthreshold : BREAKER_THRESHOLD ≤ state.consecutiveFailures + 1
    · rw [if_pos hthreshold]
      exact h hfailure hthreshold
    · rw [if_neg hthreshold]
  · rw [if_neg hfailure, if_neg hsuccess]

/-- The breaker is there with the deadline or a later one. -/
def OpenUntil (budgets : EgressBudgets) (label : Label) (deadline : ℤ) : Prop :=
  ∃ state, budgets.breakers label = some state ∧ deadline ≤ state.openUntil

theorem check_breakers (budgets : EgressBudgets) (label : Label) (initiator : TrafficInitiator) (now : ℤ) :
    (check table budgets label initiator now).2.breakers = budgets.breakers := by
  unfold check
  split
  · rfl
  · simp only []
    split
    · rfl
    · split
      · rfl
      · rfl

theorem admitRequest_breakers (budgets : EgressBudgets) (label : Label) (initiator : TrafficInitiator)
    (countRefused : Bool) (now : ℤ) :
    (admitRequest table budgets label initiator countRefused now).2.breakers = budgets.breakers := by
  have hcheck := @check_breakers table budgets label initiator now
  unfold admitRequest
  simp only []
  split
  · exact hcheck
  · exact hcheck

/-- The deadline of a breaker does not move back. -/
theorem step_openUntil {budgets : EgressBudgets} {call : ℤ × Call} {label : Label} {deadline : ℤ}
    (hopen : OpenUntil budgets label deadline) (hsuccess : ¬ Succeeds label call)
    (h : Unshortened table budgets call) : OpenUntil (step table budgets call).2 label deadline := by
  obtain ⟨state, hstate, hdeadline⟩ := hopen
  obtain ⟨now, call⟩ := call
  cases call with
  | request other initiator =>
    refine ⟨state, ?_, hdeadline⟩
    show (admitRequest table budgets other initiator false now).2.breakers label = some state
    rw [admitRequest_breakers, hstate]
  | addBytes ticket up down => exact ⟨state, hstate, hdeadline⟩
  | recordOutcome other status retryAfterSeconds =>
    show ∃ next, (nextBreakers table budgets.breakers other status retryAfterSeconds now).1 label =
      some next ∧ deadline ≤ next.openUntil
    cases status with
    | none => exact ⟨state, hstate, hdeadline⟩
    | some status =>
      unfold nextBreakers
      simp only []
      by_cases hbreaker : (budgetOf table other).breaker = true
      · rw [if_pos hbreaker]
        by_cases hother : label = other
        · subst hother
          have hself : breakerOf budgets label = state := by
            unfold breakerOf
            rw [hstate]
            rfl
          have hkeeps := h hbreaker
          rw [hself] at hkeeps
          refine ⟨_, Function.update_self _ _ _, le_trans hdeadline ?_⟩
          rw [hstate]
          exact answered_openUntil (fun hlow => hsuccess ⟨now, status, retryAfterSeconds, rfl, hlow⟩)
            hkeeps
        · exact ⟨state, (Function.update_of_ne hother _ _).trans hstate, hdeadline⟩
      · rw [if_neg hbreaker]
        exact ⟨state, hstate, hdeadline⟩

theorem run_openUntil {budgets : EgressBudgets} {calls : List (ℤ × Call)} {label : Label}
    {deadline : ℤ} (hopen : OpenUntil budgets label deadline)
    (hsuccess : ∀ call ∈ calls, ¬ Succeeds label call) (h : RunUnshortened table budgets calls) :
    OpenUntil (runFrom table budgets calls) label deadline := by
  induction calls generalizing budgets with
  | nil => exact hopen
  | cons call rest ih =>
    exact ih (step_openUntil hopen (hsuccess call List.mem_cons_self) h.1)
      (fun other hother => hsuccess other (List.mem_cons_of_mem _ hother)) h.2

theorem runUnshortened_append {budgets : EgressBudgets} {first second : List (ℤ × Call)}
    (h : RunUnshortened table budgets (first ++ second)) :
    RunUnshortened table budgets first ∧ RunUnshortened table (runFrom table budgets first) second := by
  induction first generalizing budgets with
  | nil => exact ⟨trivial, h⟩
  | cons call rest ih => exact ⟨⟨h.1, (ih h.2).1⟩, (ih h.2).2⟩

theorem runFrom_append (budgets : EgressBudgets) (first second : List (ℤ × Call)) :
    runFrom table budgets (first ++ second) = runFrom table (runFrom table budgets first) second :=
  List.foldl_append

theorem step_backoff {budgets : EgressBudgets} {label : Label} {initiator : TrafficInitiator} {now : ℤ}
    (h : isOpen (budgets.breakers label) now = true) :
    (step table budgets (now, .request label initiator)).1 = .verdict (some .backoff) := by
  have hcheck : check table budgets label initiator now = (some .backoff, budgets) := if_pos h
  unfold step admitRequest
  simp only []
  rw [hcheck]
  rfl

theorem backoffKept_run {calls : List (ℤ × Call)} (h : RunUnshortened table .initial calls) :
    BackoffKept table calls := by
  intro before between rest label initiator now state hcalls hstate hnow hsuccess
  rw [hcalls] at h
  have hbetween := (runUnshortened_append (runUnshortened_append h).2).1
  obtain ⟨last, hlast, hdeadline⟩ := run_openUntil ⟨state, hstate, le_refl _⟩ hsuccess hbetween
  rw [← runFrom_append] at hlast
  refine step_backoff ?_
  rw [hlast]
  exact decide_eq_true (lt_of_lt_of_le hnow hdeadline)

/-- Over every run of calls in order of time the caps hold in every window, the bytes of a request that
goes out are below their caps, and a refused request changes no later reply. A backoff is kept when no
breaker that is open opens again for a shorter time. -/
theorem budgets_hold (table : Label → Option LabelBudget) (calls : List (ℤ × Call))
    (hclock : calls.Pairwise fun a b => a.1 ≤ b.1) :
    WindowsHold table (acceptedBy table calls) ∧
    (∀ before now label initiator rest, calls = before ++ (now, .request label initiator) :: rest →
      ((step table (runFrom table .initial before) (now, .request label initiator)).1 = .verdict none →
        BytesBelow table (acceptedBy table before) label initiator now) ∧
      ((step table (runFrom table .initial before) (now, .request label initiator)).1 ≠ .verdict none →
        repliesFrom table (step table (runFrom table .initial before) (now, .request label initiator)).2
          rest = repliesFrom table (runFrom table .initial before) rest)) ∧
    (RunUnshortened table .initial calls → BackoffKept table calls) := by
  refine ⟨windowsHold_run hclock, ?_, backoffKept_run⟩
  rintro before now label initiator rest rfl
  refine ⟨fun haccepted => ?_, refused_changes_nothing hclock⟩
  have haccounted := @accounted_before table _ _ _ hclock
  obtain ⟨budgets, -, -, hstep⟩ := @step_request table now _ label initiator haccounted
  have hreply := congrArg Prod.fst hstep
  rw [runWorld_budgets] at hreply
  exact bytesBelow_of_admitted haccounted.inOrder (Reply.verdict.inj (haccepted.symm.trans hreply)).symm

def defaultTable (label : Label) : Option LabelBudget := EGRESS_BUDGETS.lookup label

/-- Six requests to Jira; the answers to three of them open its breaker for an hour. -/
def openedForAnHour : List (ℤ × Call) :=
  List.replicate 6 (0, .request "jira" .inbound) ++
    [(0, .recordOutcome "jira" (some 503) none), (0, .recordOutcome "jira" (some 503) none),
      (0, .recordOutcome "jira" (some 429) (some 3600))]

/-- The answers to the other three, a minute later. -/
def lateAnswers : List (ℤ × Call) :=
  List.replicate 3 (60000, .recordOutcome "jira" (some 503) none)

/-- The late answers open the breaker again for ten minutes, and a request goes out in the hour. -/
theorem backoff_shortened :
    (¬ ∀ table calls, calls.Pairwise (fun a b => a.1 ≤ b.1) → BackoffKept table calls) ∧
      (runFrom defaultTable .initial openedForAnHour).breakers "jira" = some ⟨0, 1, 3600000⟩ ∧
      (step defaultTable (runFrom defaultTable .initial (openedForAnHour ++ lateAnswers))
        (700000, .request "jira" .inbound)).1 = .verdict none := by
  have hopened : (runFrom defaultTable .initial openedForAnHour).breakers "jira" =
      some ⟨0, 1, 3600000⟩ := by
    decide +kernel
  have haccepted : (step defaultTable (runFrom defaultTable .initial (openedForAnHour ++ lateAnswers))
      (700000, .request "jira" .inbound)).1 = .verdict none := by
    decide +kernel
  refine ⟨fun h => ?_, hopened, haccepted⟩
  have hclock : (openedForAnHour ++ (lateAnswers ++ [(700000, Call.request "jira" .inbound)])).Pairwise
      fun a b : ℤ × Call => a.1 ≤ b.1 := by
    decide
  have hbackoff := h defaultTable _ hclock openedForAnHour lateAnswers [] "jira" .inbound 700000
    ⟨0, 1, 3600000⟩ rfl hopened (by decide) ?_
  · rw [haccepted] at hbackoff
    cases hbackoff
  · rintro call hcall ⟨now, status, retryAfterSeconds, rfl, hlow⟩
    have hsame := List.eq_of_mem_replicate hcall
    cases hsame
    exact absurd hlow (by decide)

def oneAnswer : List (ℤ × Call) :=
  [(0, .request "jira" .inbound), (0, .recordOutcome "jira" (some 503) none)]

theorem one_answer_holds :
    WindowsHold defaultTable (acceptedBy defaultTable oneAnswer) ∧ BackoffKept defaultTable oneAnswer := by
  have hholds := budgets_hold defaultTable oneAnswer (by decide)
  exact ⟨hholds.1, hholds.2.2 ⟨trivial, fun _ _ h => absurd h (by decide), trivial⟩⟩

end Backoff

end QuokyPlatform.Egress
