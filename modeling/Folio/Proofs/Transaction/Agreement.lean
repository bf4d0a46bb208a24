import Folio.Proofs.Transaction.Hall

/-! # Ledgers and locks agree

In every state that transactions at work can reach, the tickets that are out account for
the locks: **`Reached.agree`**.  No lock that is given back turns out not to be held, and
when all transactions have finished every lock is free.

The invariant (`Hall.Sound`) joins what is known of a lock and those who wait for it
(`Room.Orderly`) with what is known of locks and tickets (`Balanced`).  What ties the two
together is that whoever waits in a room is a transaction that is blocked there
(`Attended`), so that a lock which is granted to it does not go astray.
-/
namespace Folio

open Lock (Room Step)

namespace Hall

open Transaction

variable {τ : Type}

/-! ## Rooms and tickets -/

section Rooms
variable {rooms : List (Room Nat)} {n : Nat} {room after : Room Nat}

/-- Who holds the lock is the same in two rooms. -/
def SameHolds (room after : Room Nat) : Prop :=
  after.lock.readers = room.lock.readers ∧ after.lock.writer = room.lock.writer

variable {tickets : List Ticket}

/-- What happens among those who wait is of no account. -/
theorem balanced_set (hb : Balanced rooms tickets) (hn : rooms[n]? = some room)
    (hsame : SameHolds room after) : Balanced (rooms.set n after) tickets := by
  refine hb.relocked fun k => ?_
  rw [lock?_set hn, LawfulLockSpace.lock?_setLock]
  split
  · rename_i heq
    subst heq
    obtain ⟨hreaders, hwriter⟩ := hsame
    simp [LockSpace.lock?, hn, hreaders, hwriter]
  · rfl

/-- **A grant is accounted for by a ticket.** -/
theorem balanced_grant (hb : Balanced rooms tickets) (hn : rooms[n]? = some room) {mode : Lock.Mode}
    (free : room.lock.admits mode = true) (hafter : after.lock = room.lock.grant mode) :
    Balanced (rooms.set n after) (⟨n, mode⟩ :: tickets) := by
  have hl : LockSpace.lock? rooms n = some room.lock := congrArg (Option.map (·.lock)) hn
  have hacq : room.lock.tryAcquire mode = some after.lock := by
    rw [Lock.tryAcquire, if_pos free, hafter]
  refine (hb.acquire hl hacq).relocked fun k => ?_
  rw [lock?_set hn]

/-- **What is handed in was held.** -/
theorem handIn_of_balanced {ticket : Ticket} (hb : Balanced rooms (ticket :: tickets)) :
    ∃ room lock, rooms[ticket.lock]? = some room ∧ room.lock.release ticket.mode = .ok lock ∧
      handIn (τ := τ) rooms ticket = (.released ticket true,
        rooms.set ticket.lock { room with lock, notices := room.notices + 1 }) ∧
      Balanced (handIn (τ := τ) rooms ticket).2 tickets := by
  obtain ⟨before, hl⟩ := hb.known ticket List.mem_cons_self
  obtain ⟨lock, hheld, -⟩ := (hb.accounts _ before hl).release
  obtain ⟨room, hn, rfl⟩ := Option.map_eq_some_iff.1 hl
  have hhand : handIn (τ := τ) rooms ticket = (.released ticket true,
      rooms.set ticket.lock { room with lock, notices := room.notices + 1 }) := by
    simp [handIn, hn, Room.release, hheld, Except.map]
  have hlocks := (handIn_eq (τ := τ) (fun k => Eq.refl (LockSpace.lock? rooms k)) ticket).2
  exact ⟨room, lock, hn, hheld, hhand, (hb.releaseOne (τ := τ)).2.relocked fun k => by rw [hlocks]⟩

end Rooms

/-! ## Tickets and parties -/

section Parties
variable {rooms : List (Room Nat)} {parties : List (Party τ)} {party party' : Party τ} {p n : Nat}

/-- When one transaction changes, so do its tickets and no others. -/
theorem tickets_set (hp : parties[p]? = some party) (gained lost : List Ticket)
    (hparty : (gained ++ party.tickets).Perm (lost ++ party'.tickets)) :
    (gained ++ parties.flatMap (·.tickets)).Perm
      (lost ++ (parties.set p party').flatMap (·.tickets)) := by
  obtain ⟨hlt, rfl⟩ := List.getElem?_eq_some_iff.1 hp
  have hold := (List.getElem_cons_eraseIdx_perm hlt).symm.flatMap_right (·.tickets)
  have hnew := (List.set_perm_cons_eraseIdx hlt party').symm.flatMap_right (·.tickets)
  calc (gained ++ parties.flatMap (·.tickets)).Perm
        (gained ++ (parties[p].tickets ++ (parties.eraseIdx p).flatMap (·.tickets))) :=
        hold.append_left gained
    _ = (gained ++ parties[p].tickets) ++ (parties.eraseIdx p).flatMap (·.tickets) :=
        (List.append_assoc ..).symm
    List.Perm _ ((lost ++ party'.tickets) ++ (parties.eraseIdx p).flatMap (·.tickets)) :=
        hparty.append_right _
    _ = lost ++ (party'.tickets ++ (parties.eraseIdx p).flatMap (·.tickets)) :=
        List.append_assoc ..
    List.Perm _ (lost ++ (parties.set p party').flatMap (·.tickets)) := hnew.append_left lost

/-- Whoever waits in a room is a transaction that is blocked there. -/
def Attended (rooms : List (Room Nat)) (parties : List (Party τ)) : Prop :=
  ∀ (n : Nat) (room : Room Nat), rooms[n]? = some room → ∀ w ∈ room.waiters,
    ∃ party : Party τ, parties[w.caller]? = some party ∧ party.call = .waiting ⟨n, w.mode⟩

/-- A transaction that has finished has an empty ledger and acquires nothing. -/
def Sober (party : Party τ) : Prop :=
  party.transaction.state ≠ .started →
    party.transaction.ledger = [] ∧
      ∀ ticket, party.call ≠ .waiting ticket ∧ party.call ≠ .granted ticket

/-- A transaction that is not blocked may go on without disturbing those who wait. -/
theorem Attended.set (ha : Attended rooms parties) (hp : parties[p]? = some party)
    (hcall : ∀ ticket, party.call ≠ .waiting ticket) (party' : Party τ) :
    Attended rooms (parties.set p party') := by
  intro n room hn w hw
  obtain ⟨other, hother, hwaits⟩ := ha n room hn w hw
  have hne : p ≠ w.caller := by
    rintro rfl
    exact hcall _ (Option.some.inj (hp.symm.trans hother) ▸ hwaits)
  exact ⟨other, by rw [List.getElem?_set_ne hne, hother], hwaits⟩

/-- One room changes, and those who wait there then are blocked there. -/
theorem Attended.set_room (ha : Attended rooms parties) {after : Room Nat}
    (hafter : ∀ w ∈ after.waiters,
      ∃ party, parties[w.caller]? = some party ∧ party.call = .waiting ⟨n, w.mode⟩) :
    Attended (rooms.set n after) parties := by
  intro k room hk w hw
  rw [List.getElem?_set] at hk
  split at hk
  · rename_i heq
    subst heq
    split at hk
    · cases hk
      exact hafter w hw
    · cases hk
  · exact ha k room hk w hw

/-- A transaction whose acquire returns leaves its room, and the others wait on. -/
theorem Attended.leave (ha : Attended rooms parties) {room after : Room Nat}
    (hn : rooms[n]? = some room) {w : Lock.Waiter Nat} (hw : w ∈ room.waiters)
    (hafter : after.waiters = room.without w.caller) (party' : Party τ) :
    Attended (rooms.set n after) (parties.set w.caller party') := by
  have hrest : Attended (rooms.set n after) parties :=
    ha.set_room fun v hv => ha n room hn v (List.mem_of_mem_filter (hafter ▸ hv))
  intro k other hk v hv
  obtain ⟨party, hparty, hwaits⟩ := hrest k other hk v hv
  -- the transaction waits in this room only, and there no longer
  have hne : w.caller ≠ v.caller := by
    intro heq
    obtain ⟨q, hq, hcall⟩ := ha n room hn w hw
    have hsame : q = party := Option.some.inj (hq.symm.trans (heq ▸ hparty))
    have hkn : k = n := by
      rw [hsame, hwaits] at hcall
      injection hcall with hticket
      injection hticket
    obtain ⟨hlt, -⟩ := List.getElem?_eq_some_iff.1 hn
    rw [hkn, List.getElem?_set_self hlt] at hk
    obtain rfl := Option.some.inj hk
    rw [hafter] at hv
    exact of_decide_eq_true (List.mem_filter.1 hv).2 heq.symm
  exact ⟨party, by rw [List.getElem?_set_ne hne, hparty], hwaits⟩

end Parties

/-! ## Every move keeps the balance -/

/-- **What is known of a hall throughout.** -/
structure Sound (hall : Hall τ) : Prop where
  balanced : Balanced hall.rooms hall.tickets
  orderly : ∀ (n : Nat) (room : Room Nat), hall.rooms[n]? = some room → room.Orderly
  attended : Attended hall.rooms hall.parties
  sober : ∀ party ∈ hall.parties, Sober party

section Moves
variable {hall : Hall τ} {p n : Nat}

/-- One room changes and stays in order. -/
theorem orderly_set {rooms : List (Room Nat)}
    (ho : ∀ (n : Nat) (room : Room Nat), rooms[n]? = some room → room.Orderly)
    {after : Room Nat} (hafter : after.Orderly) (k : Nat) (room : Room Nat)
    (hk : (rooms.set n after)[k]? = some room) : room.Orderly := by
  rw [List.getElem?_set] at hk
  split at hk
  · split at hk
    · cases hk
      exact hafter
    · cases hk
  · exact ho k room hk

theorem sober_set {parties : List (Party τ)} (hs : ∀ party ∈ parties, Sober party)
    {party' : Party τ} (hparty' : Sober party') :
    ∀ party ∈ parties.set p party', Sober party := by
  intro party hparty
  rcases List.mem_or_eq_of_mem_set hparty with hparty | rfl
  · exact hs party hparty
  · exact hparty'

theorem sober_of_started {party : Party τ} (hstarted : party.transaction.state = .started) :
    Sober party :=
  fun h => absurd hstarted h

/-- A transaction that has a lock in hand has not finished. -/
theorem started_of_granted {party : Party τ} {ticket : Ticket} (hs : Sober party)
    (hcall : party.call = .granted ticket) : party.transaction.state = .started :=
  Decidable.byContradiction fun h => ((hs h).2 ticket).2 hcall

theorem started_of_waiting {party : Party τ} {ticket : Ticket} (hs : Sober party)
    (hcall : party.call = .waiting ticket) : party.transaction.state = .started :=
  Decidable.byContradiction fun h => ((hs h).2 ticket).1 hcall

theorem Sound.join (hs : hall.Sound) {t : Transaction τ} (hstarted : t.state = .started)
    (hempty : t.ledger = []) : (hall.perform (.join t)).2.Sound := by
  refine ⟨?_, hs.orderly, ?_, ?_⟩
  · have htickets : (hall.perform (.join t)).2.tickets = hall.tickets := by
      simp [perform, tickets, Party.tickets, Party.inHand, hempty]
    exact htickets ▸ hs.balanced
  · intro n room hn w hw
    obtain ⟨party, hparty, hwaits⟩ := hs.attended n room hn w hw
    obtain ⟨hlt, -⟩ := List.getElem?_eq_some_iff.1 hparty
    exact ⟨party, (List.getElem?_append_left hlt).trans hparty, hwaits⟩
  · intro party hparty
    rcases List.mem_append.1 hparty with hparty | hparty
    · exact hs.sober party hparty
    · obtain rfl := List.mem_singleton.1 hparty
      exact sober_of_started hstarted

section Ask
variable {party : Party τ} {room : Room Nat} {ticket : Ticket}

/-- A transaction that is granted a lock has a ticket in hand. -/
theorem Sound.grant (hs : hall.Sound) (hp : hall.parties[p]? = some party)
    (hn : hall.rooms[ticket.lock]? = some room) (hcall : party.call = .idle)
    (hstarted : party.transaction.state = .started)
    (hadmits : room.lock.admits ticket.mode = true) :
    Sound { rooms := hall.rooms.set ticket.lock (room.letIn ticket.mode)
            parties := hall.parties.set p { party with call := .granted ticket } } := by
  have ha := hs.attended.set hp (by simp [hcall]) { party with call := .granted ticket }
  refine ⟨?_, orderly_set hs.orderly ((hs.orderly _ room hn).letIn hadmits),
    ha.set_room fun w hw => ha _ room hn w hw, sober_set hs.sober (sober_of_started hstarted)⟩
  refine (balanced_grant hs.balanced hn hadmits rfl).perm ?_
  refine tickets_set hp [ticket] [] ?_
  simpa [Party.tickets, Party.inHand, hcall] using (List.perm_append_singleton ..).symm

/-- A transaction that blocks has no ticket, and waits in the room. -/
theorem Sound.block (hs : hall.Sound) (hp : hall.parties[p]? = some party)
    (hn : hall.rooms[ticket.lock]? = some room) (hcall : party.call = .idle)
    (hstarted : party.transaction.state = .started)
    (htaken : room.lock.admits ticket.mode = false) :
    Sound { rooms := hall.rooms.set ticket.lock (room.enqueue p ticket.mode)
            parties := hall.parties.set p { party with call := .waiting ticket } } := by
  -- whoever waits is blocked, and `p` is not
  have hnew : ∀ w ∈ room.waiters, w.caller ≠ p := by
    rintro w hw rfl
    obtain ⟨other, hother, hwaits⟩ := hs.attended _ room hn w hw
    obtain rfl := Option.some.inj (hp.symm.trans hother)
    rw [hcall] at hwaits
    cases hwaits
  have hd : room.Does (.arrive p ticket.mode) _ (room.enqueue p ticket.mode) := .blocked htaken
  have ho := (hs.orderly _ room hn).does hd hnew
  have ha := hs.attended.set hp (by simp [hcall]) { party with call := .waiting ticket }
  refine ⟨balanced_set (hs.balanced.perm ?_) hn ?_, orderly_set hs.orderly ho,
    ha.set_room fun w hw => ?_, sober_set hs.sober (sober_of_started hstarted)⟩
  · refine tickets_set hp [] [] ?_
    simp [Party.tickets, Party.inHand, hcall]
  · simp [SameHolds, Room.enqueue]
  · rcases List.mem_append.1 hw with hw | hw
    · exact ha _ room hn w hw
    · obtain rfl := List.mem_singleton.1 hw
      obtain ⟨hlt, -⟩ := List.getElem?_eq_some_iff.1 hp
      exact ⟨_, List.getElem?_set_self hlt, rfl⟩

end Ask

/-- **A transaction that asks is granted the lock or blocks.** -/
theorem Sound.ask (hs : hall.Sound) {ticket : Ticket}
    (hidle : ∀ party ∈ hall.parties[p]?, party.call = .idle) : (hall.ask p ticket).Sound := by
  unfold Hall.ask
  split
  · rename_i party room hp hn
    split
    · exact hs
    · rename_i hensure
      have hstarted : party.transaction.state = .started := by
        unfold ensureStarted at hensure
        split at hensure
        · assumption
        · cases hensure
      rcases room.arrive_cases p ticket.mode with ⟨hadmits, harrive⟩ | ⟨htaken, harrive⟩
      · rw [harrive]
        exact hs.grant hp hn (hidle party hp) hstarted hadmits
      · rw [harrive]
        exact hs.block hp hn (hidle party hp) hstarted htaken
  · exact hs

/-- **What happens among those who wait**: nothing that anybody else sees, or somebody's acquire
returns. -/
theorem perform_ofWaiters (room : Room Nat) {step : Step Nat} (hstep : OfWaiters step) :
    (∃ after, room.perform step = (none, after) ∧ room.Stirred after) ∨
      ∃ w ∈ room.waiters, ∃ result : Except Lock.Error Unit,
        (result = .ok () → room.lock.admits w.mode = true) ∧
        room.perform step = (some (.ended w.caller w.mode result), (room.conclude w result).2) := by
  have hd := room.perform_does step
  generalize hperform : room.perform step = performed at hd
  obtain ⟨event, after⟩ := performed
  cases hd with
  | stirred same => exact Or.inl ⟨after, rfl, same⟩
  | ended waits free => exact Or.inr ⟨_, waits, _, free, rfl⟩
  | _ => exact hstep.elim

/-- Who was disturbed while he waited waits as before. -/
theorem Sound.stir (hs : hall.Sound) {room after : Room Nat} (hn : hall.rooms[n]? = some room)
    (hstirred : room.Stirred after) (ho : after.Orderly) :
    Sound { hall with rooms := hall.rooms.set n after } := by
  obtain ⟨hlock, hwaiters⟩ := hstirred
  refine ⟨balanced_set hs.balanced hn ?_, orderly_set hs.orderly ho, ?_, hs.sober⟩
  · rw [SameHolds, hlock]
    exact ⟨rfl, rfl⟩
  · refine hs.attended.set_room fun w hw => ?_
    have hmem : w.setAwake false ∈ room.waiters.map (·.setAwake false) :=
      hwaiters ▸ List.mem_map_of_mem hw
    obtain ⟨v, hv, hvw⟩ := List.mem_map.1 hmem
    obtain ⟨party, hparty, hwaits⟩ := hs.attended n room hn v hv
    have hcaller : v.caller = w.caller := congrArg (·.caller) hvw
    have hmode : v.mode = w.mode := congrArg (·.mode) hvw
    exact ⟨party, hcaller ▸ hparty, hmode ▸ hwaits⟩

/-- **A blocked acquire that returns** leaves the room with a ticket in hand or without. -/
theorem Sound.tell (hs : hall.Sound) {room : Room Nat} {w : Lock.Waiter Nat}
    {result : Except Lock.Error Unit} (hn : hall.rooms[n]? = some room) (hw : w ∈ room.waiters)
    (hfree : result = .ok () → room.lock.admits w.mode = true)
    (ho : (room.conclude w result).2.Orderly) :
    Sound { rooms := hall.rooms.set n (room.conclude w result).2
            parties := hall.parties.modify w.caller (·.told ⟨n, w.mode⟩ result) } := by
  obtain ⟨party, hp, hcall⟩ := hs.attended n room hn w hw
  have hstarted := started_of_waiting (hs.sober party (List.mem_of_getElem? hp)) hcall
  have hmodify : hall.parties.modify w.caller (·.told ⟨n, w.mode⟩ result) =
      hall.parties.set w.caller (party.told ⟨n, w.mode⟩ result) := by
    rw [List.modify_eq_set_getElem?, hp]
    rfl
  rw [hmodify]
  refine ⟨?_, orderly_set hs.orderly ho, ?_, sober_set hs.sober (sober_of_started hstarted)⟩
  · cases result with
    | ok _ =>
      -- the grant, and then the waiter is counted out
      have hgranted : Balanced (hall.rooms.set n (room.letIn w.mode)) _ :=
        balanced_grant hs.balanced hn (hfree rfl) rfl
      have hsame : SameHolds (room.letIn w.mode) (room.conclude w (.ok ())).2 := by
        cases hmode : w.mode <;> simp [SameHolds, Room.conclude, Room.letIn, Lock.grant, hmode]
      obtain ⟨hlt, -⟩ := List.getElem?_eq_some_iff.1 hn
      have hcounted := balanced_set hgranted (List.getElem?_set_self hlt) hsame
      rw [List.set_set] at hcounted
      refine hcounted.perm ?_
      refine tickets_set hp [⟨n, w.mode⟩] [] ?_
      simpa [Party.told, Party.tickets, Party.inHand, hcall] using
        (List.perm_append_singleton ..).symm
    | error e =>
      refine balanced_set (hs.balanced.perm ?_) hn ?_
      · refine tickets_set hp [] [] ?_
        simp [Party.told, Party.tickets, Party.inHand, hcall]
      · simp [SameHolds, Room.conclude]
  · refine hs.attended.leave hn hw ?_ _
    cases result <;> rfl

theorem Sound.turn (hs : hall.Sound) {step : Step Nat} (hstep : OfWaiters step) :
    (hall.turn n step).Sound := by
  unfold Hall.turn
  split
  · exact hs
  · rename_i room hn
    have ha : room.Allows step := by
      cases step with
      | arrive => exact hstep.elim
      | _ => trivial
    have ho := (hs.orderly n room hn).does (room.perform_does step) ha
    rcases perform_ofWaiters room hstep with ⟨after, hp, hstirred⟩ | ⟨w, hw, result, hfree, hp⟩
    · rw [hp] at ho ⊢
      exact hs.stir hn hstirred ho
    · rw [hp] at ho ⊢
      exact hs.tell hn hw hfree ho

/-- What was in hand is in the ledger. -/
theorem Sound.enter (hs : hall.Sound) : (hall.enter p).Sound := by
  unfold Hall.enter
  split
  · rename_i t ticket hp
    have hstarted := started_of_granted (hs.sober _ (List.mem_of_getElem? hp)) rfl
    refine ⟨hs.balanced.perm ?_, hs.orderly, hs.attended.set hp (by simp) _,
      sober_set hs.sober (sober_of_started hstarted)⟩
    refine tickets_set hp [] [] ?_
    simp [Party.tickets, Party.inHand]
  · exact hs

/-! ### Giving back -/

/-- What leaves the ledger is in hand, and nothing has been given back yet. -/
theorem Sound.leave (hs : hall.Sound) (how : Farewell)
    (hidle : ∀ party ∈ hall.parties[p]?, party.call = .idle) :
    (hall.leave p how).2.Sound ∧ ∀ e ∈ (hall.leave p how).1, e.ticket? = none := by
  unfold Hall.leave
  split
  · exact ⟨hs, by simp⟩
  · rename_i party hp
    have hcall := hidle party hp
    split
    · exact ⟨hs, by simp⟩
    · rename_i after hrun
      have hparts := parts_of_run hrun
      refine ⟨⟨hs.balanced.perm ?_, hs.orderly, hs.attended.set hp (by simp [hcall]) _,
        sober_set hs.sober fun hfinished => ⟨?_, by simp⟩⟩, by simp⟩
      · refine tickets_set hp [] [] ?_
        simpa [Party.tickets, Party.inHand, hcall] using hparts.conserves.symm
      · cases hparts with
        | gives calls silent emptied events given => exact emptied
        | rests finished same silent untouched =>
          exact same.trans (hs.sober party (List.mem_of_getElem? hp) finished).1

/-- **What a transaction gives back was held.** -/
theorem Sound.giveBack (hs : hall.Sound) :
    (hall.giveBack p).2.Sound ∧
      ∀ e ∈ (hall.giveBack p).1, ∃ ticket, e = .released ticket true := by
  unfold Hall.giveBack
  split
  · rename_i t ticket tickets hp
    have hgiven : hall.tickets.Perm (ticket :: (hall.parties.set p
        { transaction := t, call := .parting tickets }).flatMap (·.tickets)) := by
      refine tickets_set hp [] [ticket] ?_
      simp [Party.tickets, Party.inHand]
    obtain ⟨room, lock, hn, hheld, hhand, hb⟩ :=
      handIn_of_balanced (τ := τ) (hs.balanced.perm hgiven)
    have ho := (hs.orderly _ room hn).does (.released hheld) trivial
    rw [hhand] at hb ⊢
    have ha := hs.attended.set hp (by simp) { transaction := t, call := .parting tickets }
    refine ⟨⟨hb, orderly_set hs.orderly ho, ha.set_room fun w hw => ha _ room hn w hw,
      sober_set hs.sober fun hfinished => ⟨?_, by simp⟩⟩, by simp⟩
    exact (hs.sober _ (List.mem_of_getElem? hp) hfinished).1
  · rename_i t hp
    refine ⟨⟨hs.balanced.perm ?_, hs.orderly, hs.attended.set hp (by simp) _,
      sober_set hs.sober fun hfinished => ⟨?_, by simp⟩⟩, by simp⟩
    · refine tickets_set hp [] [] ?_
      simp [Party.tickets, Party.inHand]
    · exact (hs.sober _ (List.mem_of_getElem? hp) hfinished).1
  · exact ⟨hs, by simp⟩

/-- **Every move keeps the balance**, and whatever it gives back was held. -/
theorem Sound.perform (hs : hall.Sound) {move : Move τ} (ha : hall.Allows move) :
    (hall.perform move).2.Sound ∧
      ∀ ticket held, .released ticket held ∈ (hall.perform move).1 → held = true := by
  cases move with
  | join t => exact ⟨hs.join ha.1 ha.2, by simp [Hall.perform]⟩
  | ask p ticket => exact ⟨hs.ask ha, by simp [Hall.perform]⟩
  | turn n step => exact ⟨hs.turn ha, by simp [Hall.perform]⟩
  | enter p => exact ⟨hs.enter, by simp [Hall.perform]⟩
  | leave p how =>
    obtain ⟨hsound, hsilent⟩ := hs.leave how ha
    refine ⟨hsound, fun ticket held he => ?_⟩
    cases hsilent _ he
  | giveBack p =>
    obtain ⟨hsound, hheld⟩ := hs.giveBack (p := p)
    refine ⟨hsound, fun ticket held he => ?_⟩
    obtain ⟨_, heq⟩ := hheld _ he
    cases heq
    rfl

end Moves

/-! ## All that can happen -/

/-- **The states of a hall and what has happened in it.**  At first the locks are free, whatever the
time they allow for waiting, and there are no transactions. -/
inductive Reached : Hall τ → List (Transaction.Event τ) → Prop
  | opened (timeouts : List (Option Duration)) :
      Reached { rooms := timeouts.map fun timeout => { lock := { timeout } } } []
  | move {hall : Hall τ} {log : List (Transaction.Event τ)} (before : Reached hall log)
      (move : Move τ) (allowed : hall.Allows move) :
      Reached (hall.perform move).2 (log ++ (hall.perform move).1)

section Reached
variable {hall : Hall τ} {log : List (Transaction.Event τ)}

theorem sound_opened (timeouts : List (Option Duration)) :
    Sound ({ rooms := timeouts.map fun timeout => { lock := { timeout } } } : Hall τ) := by
  have hroom (n : Nat) (room : Room Nat)
      (hn : (timeouts.map fun timeout => ({ lock := { timeout } } : Room Nat))[n]? = some room) :
      ∃ timeout, room = { lock := { timeout } } := by
    rw [List.getElem?_map] at hn
    obtain ⟨timeout, -, rfl⟩ := Option.map_eq_some_iff.1 hn
    exact ⟨timeout, rfl⟩
  refine ⟨⟨by simp [tickets], fun n lock hl => ?_⟩, fun n room hn => ?_, fun n room hn w hw => ?_,
    by simp⟩
  · obtain ⟨room, hn, rfl⟩ := Option.map_eq_some_iff.1 hl
    obtain ⟨timeout, rfl⟩ := hroom n room hn
    exact accounts_of_free rfl rfl (by simp [tickets])
  · obtain ⟨timeout, rfl⟩ := hroom n room hn
    exact Room.orderly_new timeout
  · obtain ⟨timeout, rfl⟩ := hroom n room hn
    cases hw

theorem Reached.keeps (hr : Reached hall log) :
    hall.Sound ∧ ∀ ticket held, .released ticket held ∈ log → held = true := by
  induction hr with
  | opened timeouts => exact ⟨sound_opened timeouts, by simp⟩
  | move before move allowed ih =>
    obtain ⟨hsound, hheld⟩ := ih.1.perform allowed
    refine ⟨hsound, fun ticket held he => ?_⟩
    rcases List.mem_append.1 he with he | he
    · exact ih.2 ticket held he
    · exact hheld ticket held he

/-- A ticket is for reading or for writing. -/
theorem countP_lock (tickets : List Ticket) (n : Nat) :
    tickets.countP (·.lock = n) = tickets.count ⟨n, .read⟩ + tickets.count ⟨n, .write⟩ := by
  induction tickets with
  | nil => rfl
  | cons ticket tickets ih =>
    obtain ⟨k, mode⟩ := ticket
    rw [List.countP_cons, List.count_cons, List.count_cons, ih]
    by_cases hk : k = n
    · cases mode <;> simp [hk] <;> omega
    · simp [hk]

/-- When all transactions have finished, every lock is free and nobody waits for it. -/
theorem Sound.free (hs : hall.Sound) (hfinished : ∀ party ∈ hall.parties,
    party.transaction.state ≠ .started ∧ party.inHand = []) {n : Nat} {room : Room Nat}
    (hn : hall.rooms[n]? = some room) :
    room.waiters = [] ∧ ∀ mode, room.lock.admits mode = true := by
  have hnone : hall.tickets = [] := by
    refine List.flatMap_eq_nil_iff.2 fun party hparty => ?_
    obtain ⟨hstate, hhand⟩ := hfinished party hparty
    rw [Party.tickets, (hs.sober party hparty hstate).1, hhand]
    rfl
  have hwaiters : room.waiters = [] := by
    refine List.eq_nil_iff_forall_not_mem.2 fun w hw => ?_
    obtain ⟨party, hp, hwaits⟩ := hs.attended n room hn w hw
    have hparty := List.mem_of_getElem? hp
    exact ((hs.sober party hparty (hfinished party hparty).1).2 _).1 hwaits
  obtain ⟨hreaders, hwriter, -⟩ := hs.balanced.accounts n room.lock (by simp [LockSpace.lock?, hn])
  have hwaiting := (hs.orderly n room hn).counted
  rw [hnone] at hreaders hwriter
  rw [hwaiters] at hwaiting
  refine ⟨hwaiters, fun mode => ?_⟩
  have hfree : room.lock.writer = false := by simpa using hwriter
  cases mode <;> simp_all [Lock.admits]

/-- **Locks and tickets agree** in every state that transactions at work can reach, whatever they do
in whatever order.  A lock has as many readers as there are read tickets for it; it is held for
writing exactly if there is one write ticket for it, and then there is no other ticket.  Between
calls the tickets are those in the ledgers.  Nothing was ever given back that was not held, and when
all transactions have finished every lock is free. -/
theorem Reached.agree (hr : Reached hall log) :
    (∀ (n : Nat) (room : Room Nat), hall.rooms[n]? = some room →
      room.lock.readers = hall.tickets.count ⟨n, .read⟩ ∧
      (room.lock.writer = true ↔ hall.tickets.count ⟨n, .write⟩ = 1) ∧
      (⟨n, .write⟩ ∈ hall.tickets → hall.tickets.countP (·.lock = n) = 1)) ∧
    ((∀ party ∈ hall.parties, party.inHand = []) →
      hall.tickets = hall.parties.flatMap (·.transaction.ledger)) ∧
    (∀ ticket held, .released ticket held ∈ log → held = true) ∧
    ((∀ party ∈ hall.parties, party.transaction.state ≠ .started ∧ party.inHand = []) →
      ∀ (n : Nat) (room : Room Nat), hall.rooms[n]? = some room →
        room.lock.isLocked = false ∧ room.waiters = [] ∧
        ∀ mode, room.lock.admits mode = true) := by
  obtain ⟨hs, hheld⟩ := hr.keeps
  refine ⟨fun n room hn => ?_, fun hnone => ?_, hheld, fun hfinished n room hn => ?_⟩
  · obtain ⟨hreaders, hwriter, -⟩ :=
      hs.balanced.accounts n room.lock (by simp [LockSpace.lock?, hn])
    refine ⟨hreaders, ?_, fun hw => ?_⟩
    · rw [← hwriter]
      cases room.lock.writer <;> simp
    · obtain ⟨hone, hread⟩ := hs.balanced.exclusive hw
      rw [countP_lock, hone, List.count_eq_zero.2 hread]
  · refine List.flatMap_congr fun party hparty => ?_
    rw [Party.tickets, hnone party hparty, List.append_nil]
  · obtain ⟨hwaiters, hadmits⟩ := hs.free hfinished hn
    refine ⟨?_, hwaiters, hadmits⟩
    have hfree := hadmits .write
    simpa [Lock.admits, Lock.isLocked] using hfree

/-- A transaction that waited until another had committed has the only ticket of the lock.  When it
is given up the lock is free. -/
theorem Reached.agree_after_waiting : ∃ (writing done : Hall Unit)
      (log later : List (Transaction.Event Unit)), Reached writing log ∧ Reached done later ∧
    .released ⟨0, .read⟩ true ∈ log ∧ writing.tickets = [⟨0, .write⟩] ∧
    writing.tickets.countP (·.lock = 0) = 1 ∧
    (∀ ticket held, .released ticket held ∈ later → held = true) ∧
    ∀ (n : Nat) (room : Room Nat), done.rooms[n]? = some room → room.lock.isLocked = false := by
  have opened : Reached ({ rooms := [{ lock := { timeout := none } }] } : Hall Unit) [] :=
    .opened [none]
  have begun := (opened.move (.join { id := 1 }) (by decide)).move (.join { id := 2 }) (by decide)
  have reading := (begun.move (.ask 0 ⟨0, .read⟩) (by decide)).move (.enter 0) (by decide)
  have blocked := reading.move (.ask 1 ⟨0, .write⟩) (by decide)
  have leaving := (blocked.move (.leave 0 .commit) (by decide)).move (.giveBack 0) (by decide)
  have left := (leaving.move (.giveBack 0) (by decide)).move (.turn 0 .deliver) (by decide)
  have writing := (left.move (.turn 0 (.resume 1)) (by decide)).move (.enter 1) (by decide)
  have dropped := (writing.move (.leave 1 .drop) (by decide)).move (.giveBack 1) (by decide)
  have done := dropped.move (.giveBack 1) (by decide)
  exact ⟨_, _, _, _, writing, done, by decide, by decide, (writing.agree.1 0 _ rfl).2.2 (by decide),
    done.agree.2.2.1, fun n room hn => (done.agree.2.2.2 (by decide) n room hn).1⟩

end Reached
end Hall
end Folio
