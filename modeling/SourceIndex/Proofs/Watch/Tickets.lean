import Mathlib.Data.List.Perm.Basic
import SourceIndex.Watch.RunGuard

/-! Guards in use. Copies of a guard share one state, and a ticket that is dropped gives back the
state of the guard that admitted it. However begins and drops follow one another, a guard has at
most one ticket out, and all its copies tell whether it has. -/

namespace SourceIndex

/-- Guards in memory, the copies that lead to them and the tickets that are held. -/
structure GuardMemory where
  guards : List RunGuard := []
  /-- For each copy, the place of the guard whose state it shares. -/
  copies : List Nat := []
  /-- The tickets that have not been dropped, each with the place of its guard. -/
  held : List (Nat × RunTicket) := []

/-- What may be done with guards: a new one is made, which is its own first copy, a copy is copied,
a run is begun with a copy, or a ticket is dropped. -/
inductive GuardCall
  | make
  | copy (source : Nat)
  | begin (copy : Nat)
  | drop (ticket : Nat × RunTicket)

namespace GuardMemory

/-- The guard to which a copy leads, with its place. -/
def guard? (memory : GuardMemory) (copy : Nat) : Option (Nat × RunGuard) :=
  (memory.copies[copy]?).bind fun place => memory.guards[place]?.map (place, ·)

def isRunning (memory : GuardMemory) (copy : Nat) : Bool :=
  (memory.guard? copy).any (·.2.isRunning)

def begin (memory : GuardMemory) (copy : Nat) : Option RunTicket × GuardMemory :=
  match memory.guard? copy with
  | none => (none, memory)
  | some (place, guard) =>
    let (ticket, next) := guard.begin
    (ticket, { memory with
      guards := memory.guards.set place next
      held := memory.held ++ (ticket.map (place, ·)).toList })

/-- Drops a ticket. Only a ticket that is held can be dropped. -/
def drop (memory : GuardMemory) (ticket : Nat × RunTicket) : GuardMemory :=
  if ticket ∈ memory.held then
    { memory with
      guards := memory.guards.modify ticket.1 (·.finish ticket.2)
      held := memory.held.erase ticket }
  else memory

def take (memory : GuardMemory) : GuardCall → GuardMemory
  | .make => { memory with
      guards := memory.guards ++ [{}], copies := memory.copies ++ [memory.guards.length] }
  | .copy source =>
    { memory with copies := memory.copies ++ (memory.copies[source]?).toList }
  | .begin copy => (memory.begin copy).2
  | .drop ticket => memory.drop ticket

def run (memory : GuardMemory) (calls : List GuardCall) : GuardMemory := calls.foldl take memory

/-- How many tickets of a guard are held. -/
def ticketsOut (memory : GuardMemory) (place : Nat) : Nat := memory.held.countP (·.1 = place)

/-- Whether the guard at a place has admitted a run that is still on its way. -/
def isBusy (memory : GuardMemory) (place : Nat) : Bool :=
  memory.guards[place]?.any (·.isRunning)

/-- Whether copies lead to guards, and the state of every guard tells whether a ticket is out. -/
structure IsExclusive (memory : GuardMemory) : Prop where
  leads : ∀ place ∈ memory.copies, place < memory.guards.length
  tickets : ∀ place, memory.ticketsOut place = (memory.isBusy place).toNat

variable {memory : GuardMemory} {copy place : Nat}

/-! ## What copies tell -/

theorem IsExclusive.ticketsOut_le_one (exclusive : memory.IsExclusive) (place : Nat) :
    memory.ticketsOut place ≤ 1 := by
  rw [exclusive.tickets]
  exact Bool.toNat_le _

theorem IsExclusive.guard?_eq (exclusive : memory.IsExclusive)
    (isCopy : memory.copies[copy]? = some place) :
    ∃ guard, memory.guards[place]? = some guard ∧ memory.guard? copy = some (place, guard) := by
  have found := List.getElem?_eq_getElem (exclusive.leads place (List.mem_of_getElem? isCopy))
  exact ⟨_, found, by rw [guard?, isCopy, Option.bind_some, found, Option.map_some]⟩

theorem IsExclusive.isRunning_eq (exclusive : memory.IsExclusive)
    (isCopy : memory.copies[copy]? = some place) : memory.isRunning copy = memory.isBusy place := by
  rcases exclusive.guard?_eq isCopy with ⟨guard, found, leads⟩
  rw [isRunning, leads, isBusy, found]
  rfl

theorem IsExclusive.isSome_begin (exclusive : memory.IsExclusive)
    (isCopy : memory.copies[copy]? = some place) :
    (memory.begin copy).1.isSome = !memory.isBusy place := by
  rcases exclusive.guard?_eq isCopy with ⟨guard, found, leads⟩
  simp only [begin, leads, isBusy, found, Option.any_some, RunGuard.begin]
  cases guard.isRunning <;> rfl

/-! ## One call -/

/-- A begin is refused and changes nothing, or it admits a run of a guard that was not busy. -/
theorem begin_cases (memory : GuardMemory) (copy : Nat) :
    memory.begin copy = (none, memory) ∨
    ∃ place guard, memory.copies[copy]? = some place ∧ memory.guards[place]? = some guard ∧
      memory.isBusy place = false ∧
      memory.begin copy = (some ⟨guard.admitted⟩, { memory with
        guards := memory.guards.set place ⟨true, guard.admitted + 1⟩
        held := memory.held ++ [(place, ⟨guard.admitted⟩)] }) := by
  simp only [begin]
  split
  · exact .inl rfl
  · next place guard leads =>
      rcases Option.bind_eq_some_iff.mp leads with ⟨_, isCopy, found⟩
      rcases Option.map_eq_some_iff.mp found with ⟨_, found, same⟩
      cases same
      cases running : guard.isRunning with
      | true =>
          rcases List.getElem?_eq_some_iff.mp found with ⟨inside, here⟩
          subst here
          exact .inl (by simp [RunGuard.begin, running])
      | false =>
          refine .inr ⟨place, guard, isCopy, found, by simp [isBusy, found, running], ?_⟩
          simp [RunGuard.begin, running]

theorem IsExclusive.begin (exclusive : memory.IsExclusive) (copy : Nat) :
    (memory.begin copy).2.IsExclusive := by
  rcases memory.begin_cases copy with refused | ⟨place, guard, -, found, idle, admitted⟩
  · rwa [refused]
  · rw [admitted]
    have inside := (List.getElem?_eq_some_iff.mp found).1
    refine ⟨by simpa using exclusive.leads, fun other => ?_⟩
    have former := exclusive.tickets other
    simp only [ticketsOut, isBusy, List.countP_append, List.getElem?_set] at former idle ⊢
    by_cases same : place = other
    · subst same
      rw [former, idle]
      simp [inside]
    · simpa [same] using former

/-- A ticket that is dropped is the only one of its guard, which is not busy any more. -/
theorem IsExclusive.drop (exclusive : memory.IsExclusive) (ticket : Nat × RunTicket) :
    (memory.drop ticket).IsExclusive := by
  rw [GuardMemory.drop]
  split
  · next held =>
      refine ⟨by simpa using exclusive.leads, fun other => ?_⟩
      have former := exclusive.tickets other
      have one := exclusive.ticketsOut_le_one other
      simp only [ticketsOut, isBusy, (List.perm_cons_erase held).countP_eq, List.countP_cons,
        List.getElem?_modify] at former one ⊢
      by_cases same : ticket.1 = other
      · simp only [same, if_true, decide_true] at one ⊢
        have none : List.countP (·.1 = other) (memory.held.erase ticket) = 0 := by omega
        rw [none]
        cases memory.guards[other]? <;> rfl
      · simpa [same] using former
  · exact exclusive

theorem IsExclusive.take (exclusive : memory.IsExclusive) (call : GuardCall) :
    (memory.take call).IsExclusive := by
  cases call with
  | make =>
      refine ⟨fun place member => ?_, fun place => ?_⟩
      · simp only [GuardMemory.take, List.length_append, List.length_singleton]
        rcases List.mem_append.mp member with former | new
        · exact Nat.lt_succ_of_lt (exclusive.leads place former)
        · rw [List.mem_singleton.mp new]
          exact Nat.lt_succ_self _
      · -- A new guard is not busy, and so its place stays as it was.
        have same : (memory.take .make).isBusy place = memory.isBusy place := by
          simp only [isBusy, GuardMemory.take, List.getElem?_append]
          split
          · rfl
          · next outside =>
              rw [List.getElem?_eq_none (Nat.not_lt.mp outside)]
              cases place - memory.guards.length <;> rfl
        rw [same]
        exact exclusive.tickets place
  | copy source =>
      refine ⟨fun place member => ?_, exclusive.tickets⟩
      rcases List.mem_append.mp member with former | copied
      · exact exclusive.leads place former
      · exact exclusive.leads place (List.mem_of_getElem? (Option.mem_toList.mp copied))
  | begin copy => exact exclusive.begin copy
  | drop ticket => exact exclusive.drop ticket

theorem isExclusive_run (calls : List GuardCall) (exclusive : memory.IsExclusive) :
    (memory.run calls).IsExclusive := by
  induction calls generalizing memory with
  | nil => exact exclusive
  | cons call calls induction => exact induction (exclusive.take call)

/-- Only a begin with one of its copies makes a guard give a ticket out. -/
theorem ticketsOut_take_le (memory : GuardMemory) {call : GuardCall}
    (other : ∀ copy, call = .begin copy → memory.copies[copy]? ≠ some place) :
    (memory.take call).ticketsOut place ≤ memory.ticketsOut place := by
  cases call with
  | make | copy => exact Nat.le_refl _
  | begin copy =>
      rcases memory.begin_cases copy with refused | ⟨begun, guard, isCopy, -, -, admitted⟩
      · exact Nat.le_of_eq (by rw [take, refused])
      · have different : begun ≠ place := fun same => other copy rfl (by rw [isCopy, same])
        simp [take, admitted, ticketsOut, different]
  | drop ticket =>
      rw [take, drop]
      split
      · exact List.Sublist.countP_le List.erase_sublist
      · exact Nat.le_refl _

/-! ## Runs -/

/-- Whether no run of a guard is begun by calls. -/
def LeavesAlone (memory : GuardMemory) (place : Nat) (calls : List GuardCall) : Prop :=
  ∀ front copy, front ++ [.begin copy] <+: calls → (memory.run front).copies[copy]? ≠ some place

theorem ticketsOut_run_le {calls : List GuardCall} (alone : memory.LeavesAlone place calls) :
    (memory.run calls).ticketsOut place ≤ memory.ticketsOut place := by
  induction calls generalizing memory with
  | nil => exact Nat.le_refl _
  | cons call calls induction =>
      have first : (memory.take call).ticketsOut place ≤ memory.ticketsOut place := by
        refine memory.ticketsOut_take_le ?_
        rintro copy rfl
        exact alone [] copy ⟨calls, rfl⟩
      refine Nat.le_trans (induction fun front copy isFront => ?_) first
      exact alone (call :: front) copy (List.cons_prefix_cons.mpr ⟨rfl, isFront⟩)

theorem ticketsOut_drop (exclusive : memory.IsExclusive) {ticket : Nat × RunTicket}
    (held : ticket ∈ memory.held) : (memory.drop ticket).ticketsOut ticket.1 = 0 := by
  rw [(exclusive.drop ticket).tickets, drop, if_pos held, isBusy, List.getElem?_modify]
  cases memory.guards[ticket.1]? with
  | none => rfl
  | some guard => simp [RunGuard.finish]

end GuardMemory

/-- Whatever has been called, a guard has at most one ticket out. With each of its copies a run can
be begun if and only if none is out, and each of them tells that a run is on its way if and only if
one is. And when a ticket is dropped, with each copy a run can be begun, until one is. -/
theorem guards_admit_one_run (calls : List GuardCall) :
    let memory := GuardMemory.run {} calls
    (∀ place, memory.ticketsOut place ≤ 1) ∧
    (∀ copy place, memory.copies[copy]? = some place →
      ((memory.begin copy).1.isSome = true ↔ memory.ticketsOut place = 0) ∧
      (memory.isRunning copy = true ↔ memory.ticketsOut place = 1)) ∧
    ∀ ticket ∈ memory.held, ∀ later, (memory.drop ticket).LeavesAlone ticket.1 later →
      let next := (memory.drop ticket).run later
      ∀ copy, next.copies[copy]? = some ticket.1 → (next.begin copy).1.isSome = true := by
  have start : GuardMemory.IsExclusive {} := ⟨nofun, fun _ => rfl⟩
  have exclusive := GuardMemory.isExclusive_run calls start
  refine ⟨exclusive.ticketsOut_le_one, fun copy place isCopy => ?_, ?_⟩
  · rw [exclusive.isSome_begin isCopy, exclusive.isRunning_eq isCopy, exclusive.tickets]
    cases GuardMemory.isBusy _ place <;> simp
  · intro ticket held later alone next copy isCopy
    have free := Nat.le_trans (GuardMemory.ticketsOut_run_le alone)
      (Nat.le_of_eq (GuardMemory.ticketsOut_drop exclusive held))
    have stays := GuardMemory.isExclusive_run later (exclusive.drop ticket)
    rw [stays.isSome_begin isCopy]
    rw [stays.tickets, Nat.le_zero] at free
    cases busy : next.isBusy ticket.1 with
    | false => rfl
    | true => rw [busy] at free; cases free

/-- While one copy's run is on its way, another copy of the guard is refused. It is not any more when
the ticket has been dropped, although a run of another guard has been begun. -/
theorem guards_admit_one_run_of_copies :
    let memory := GuardMemory.run {} [.make, .copy 0, .make, .begin 1]
    let next := (memory.drop (0, ⟨0⟩)).run [.begin 2]
    memory.held = [(0, ⟨0⟩)] ∧ (memory.begin 0).1.isSome = false ∧ memory.isRunning 0 = true ∧
      next.held = [(1, ⟨0⟩)] ∧ (next.begin 0).1.isSome = true := by
  have admits := guards_admit_one_run [.make, .copy 0, .make, .begin 1]
  refine ⟨rfl, rfl, (admits.2.1 0 0 rfl).2.mpr rfl, rfl, ?_⟩
  refine admits.2.2 (0, ⟨0⟩) (List.mem_singleton_self _) [.begin 2] ?_ 0 rfl
  intro front copy isFront
  have whole : front ++ [.begin copy] = [] ++ [.begin 2] := isFront.eq_of_length_le (by simp)
  rcases List.append_inj' whole rfl with ⟨rfl, same⟩
  cases same
  decide

end SourceIndex
