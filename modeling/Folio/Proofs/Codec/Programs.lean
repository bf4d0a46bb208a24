import Folio.Proofs.Codec.Draining
import Folio.Proofs.Codec.Mirroring

/-! # Programs that read

Whoever reads calls the reader again and again, decides what to call next by what came of the calls
before, and goes on after an error or gives up.  A `Program` is such a use of the reader, whatever
it is for.  It is run in two ways: on a machine (`Program.machine`), where every sum and every slice
can fault, and without one (`Program.step`).  Both come to the same, for one call after another
(`Call.mirrors`) and so for all of them (`Program.mirrors`).

The loops over counted and open-ended lists are written as programs here; what they are without a
machine is the loops of `Folio.Codec` (`Program.Runs`).
-/
namespace Folio.Codec

variable {α β : Type}

/-- A counted list whose count is a machine word. -/
structure Listing extends CountedList where
  fits : declared ≤ maxCount

namespace Listing

variable (list : Listing)

/-- A list of which no item has been passed. -/
def ofCount (n : Nat) (h : n ≤ maxCount) : Listing where
  declared := n
  consumed := 0
  consumed_le := Nat.zero_le n
  fits := h

/-- The list after the next item. -/
def passed (h : list.consumed ≠ list.declared) : Listing where
  declared := list.declared
  consumed := list.consumed + 1
  consumed_le := by
    have := list.consumed_le
    omega
  fits := list.fits

/-- The list after every item. -/
def drained : Listing where
  toCountedList := list.toCountedList.drained
  fits := list.fits

theorem drained_eq_self {list : Listing} (h : list.consumed = list.declared) :
    list.drained = list := by
  obtain ⟨⟨declared, consumed, _⟩, _⟩ := list
  cases h
  rfl

end Listing

/-! ## Calls -/

/-- A call of the reader, with what it tells. -/
inductive Call : Type → Type
  | position : Call Nat
  | remaining : Call Nat
  | byte : Call UInt8
  | number : Call Nat
  | unsigned (width : Nat) : Call Nat
  | integer : Call Int
  | signed (width : Nat) : Call Int
  | fixed (count : Nat) : Call Nat
  | content : Call Bytes
  | text : Call String
  | skip (item : Item) (count : Nat) : Call Unit
  | skipRaw (count : Nat) : Call Unit
  | copy (item : Item) (count : Nat) : Call Unit
  | copyRaw (count : Nat) : Call Unit
  | copyNumber : Call Nat
  /-- Counts the next item of a list. -/
  | pass (list : Listing) (h : list.consumed ≠ list.declared) : Call Listing
  /-- How many items of a list are left. -/
  | left (list : Listing) : Call Nat

namespace Call

/-- What a machine does in a call. -/
def machine (block : Bytes) : Call α → Checked α
  | position => Checked.position
  | remaining => Checked.remaining block
  | byte => Checked.byte block
  | number => Checked.number block
  | unsigned width => Checked.unsigned block width
  | integer => Checked.integer block
  | signed width => Checked.signed block width
  | fixed count => Checked.fixed block count
  | content => Checked.content block
  | text => Checked.text block
  | skip item count => Checked.skip block item count
  | skipRaw count => Checked.skipRaw block count
  | copy item count => Checked.copy block item count
  | copyRaw count => Checked.copyRaw block count
  | copyNumber => Checked.copyNumber block
  | pass list h => do
    let _ ← Checked.add list.consumed 1
    return list.passed h
  | left list => Checked.sub list.declared list.consumed

/-- The same call without a machine. -/
def step : Call α → Copier α
  | position => Copier.reading do return (← get).position
  | remaining => Copier.reading do return (← get).remaining
  | byte => Copier.reading readByte
  | number => Copier.reading (readUnsigned 64)
  | unsigned width => Copier.reading (readUnsigned width)
  | integer => Copier.reading (readSigned 64)
  | signed width => Copier.reading (readSigned width)
  | fixed count => Copier.reading (.ofUnread (takeFixed count))
  | content => Copier.reading readBlock
  | text => Copier.reading readText
  | skip item count => Copier.reading (skipSpan (item.spans count))
  | skipRaw count => Copier.reading (Codec.skipRaw count)
  | copy item count => copySpan (item.spans count)
  | copyRaw count => Codec.copyRaw count
  | copyNumber => Codec.copyNumber
  | pass list h => pure (list.passed h)
  | left list => pure (list.declared - list.consumed)

end Call

open Checked (Mirrors)

/-- **No call faults**, and each shows what the call without a machine does. -/
theorem Call.mirrors {block : Bytes} (hblock : block.length ≤ maxCount) (call : Call α) :
    Mirrors block (call.machine block) call.step := by
  cases call with
  | position => exact Checked.mirrors_position
  | remaining => exact Checked.mirrors_remaining
  | byte => exact (Checked.takes_byte hblock).mirrors
  | number =>
    have hmirrors := (Checked.takes_number hblock).mirrors
    rwa [← Decoder.takeUnsigned_64] at hmirrors
  | unsigned width => exact (Checked.takes_unsigned hblock width).mirrors
  | integer => exact (Checked.takes_integer hblock).mirrors
  | signed width => exact (Checked.takes_signed hblock width).mirrors
  | fixed count => exact (Checked.takes_fixed hblock count).mirrors
  | content => exact (Checked.takes_content hblock).mirrors
  | text => exact (Checked.takes_text hblock).mirrors
  | skip item count => exact Checked.mirrors_skip hblock item count
  | skipRaw count =>
    have hstep : (Call.skipRaw count).step =
        Copier.reading (takeSpan (.raw count)) >>= fun _ => pure () := Copier.reading_bind _ _
    rw [hstep]
    exact (Checked.mirrors_raw hblock count).bind fun _ => Checked.mirrors_pure ()
  | copy item count => exact Checked.mirrors_copy hblock item count
  | copyRaw count => exact (Checked.mirrors_raw hblock count).bind Checked.mirrors_put
  | copyNumber => exact Checked.mirrors_copyNumber hblock
  | pass list h =>
    have hle := list.consumed_le
    have hfits := list.fits
    rw [machine, Checked.add_of_le (by omega), pure_bind]
    exact Checked.mirrors_pure _
  | left list =>
    rw [machine, Checked.sub_of_le list.consumed_le]
    exact Checked.mirrors_pure _

/-! ## Programs -/

/-- **A use of the reader**: calls, of which each may depend on what came of those before it. -/
inductive Program : Type → Type 1
  | pure {α : Type} (a : α) : Program α
  | fail {α : Type} (e : Error) : Program α
  | call {α : Type} (request : Call α) : Program α
  | bind {α β : Type} (first : Program α) (next : α → Program β) : Program β
  /-- Goes on after an error. -/
  | attempt {α : Type} (program : Program α) : Program (Except Error α)
  /-- Takes everything back after an error. -/
  | atomically {α : Type} (program : Program α) : Program α

instance : Monad Program where
  pure := .pure
  bind := .bind

namespace Program

/-- What a machine does in a program. -/
def machine (block : Bytes) {α : Type} : Program α → Checked α
  | .pure a => Pure.pure a
  | .fail e => throw e
  | .call request => request.machine block
  | .bind first next => first.machine block >>= fun a => (next a).machine block
  | .attempt program => Checked.attempt (program.machine block)
  | .atomically program => Checked.atomically block (program.machine block)

/-- The same program without a machine. -/
def step {α : Type} : Program α → Copier α
  | .pure a => Pure.pure a
  | .fail e => throw e
  | .call request => request.step
  | .bind first next => first.step >>= fun a => (next a).step
  | .attempt program => program.step.attempt
  | .atomically program => Copier.atomically program.step

/-- **No program faults**, and each shows what it does without a machine. -/
theorem mirrors {block : Bytes} (hblock : block.length ≤ maxCount) (program : Program α) :
    Mirrors block (program.machine block) program.step := by
  induction program with
  | pure a => exact Checked.mirrors_pure a
  | fail e => exact Checked.mirrors_throw e
  | call request => exact request.mirrors hblock
  | bind first next ihfirst ihnext => exact ihfirst.bind ihnext
  | attempt program ih => exact ih.attempt
  | atomically program ih => exact ih.atomically

/-! ### What programs are -/

@[simp] theorem step_pure (a : α) : (Pure.pure a : Program α).step = Pure.pure a := rfl

@[simp] theorem step_bind (first : Program α) (next : α → Program β) :
    (first >>= next).step = first.step >>= fun a => (next a).step := rfl

theorem step_map (g : α → β) (program : Program α) :
    (g <$> program).step = program.step >>= fun a => Pure.pure (g a) := rfl

/-- Runs a program inside a value that has begun. -/
def within (program : Program α) : Program α := do
  match ← attempt program with
  | .ok a => return a
  | .error e => fail e.within

@[simp] theorem step_within (program : Program α) :
    (within program).step = Codec.within program.step := by
  funext t
  show EStateM.bind (Copier.attempt program.step) _ t = _
  unfold EStateM.bind Copier.attempt Codec.within
  cases program.step t <;> rfl

/-- **What a program is without a machine**: a decoder. -/
def Runs (program : Program α) (d : Decoder α) : Prop := program.step = Copier.reading d

section
variable {program : Program α} {next : α → Program β} {d : Decoder α} {f : α → Decoder β}

theorem runs_pure (a : α) : Runs (Pure.pure a) (Pure.pure a : Decoder α) := rfl

/-- What comes next has to be the same only for what can be read. -/
theorem Runs.bind_of_ensures {P : α → Prop} (h : program.Runs d) (hd : d.Ensures P)
    (hnext : ∀ a, P a → (next a).Runs (f a)) : (program >>= next).Runs (d >>= f) := by
  funext t
  rw [step_bind, h]
  cases hrun : d t.input with
  | error e r =>
    rw [bind_of_error (Copier.reading_of_error hrun), Copier.reading_of_error (bind_of_error hrun)]
  | ok a r =>
    rw [bind_of_ok (Copier.reading_of_ok hrun), hnext a (hd _ a r hrun), Copier.reading,
      Copier.reading, bind_of_ok hrun]

theorem Runs.bind (h : program.Runs d) (hnext : ∀ a, (next a).Runs (f a)) :
    (program >>= next).Runs (d >>= f) :=
  h.bind_of_ensures (ensures_true d) fun a _ => hnext a

/-- It makes no difference how three programs in a row are put in brackets. -/
theorem Runs.assoc {γ : Type} {last : β → Program γ} {d : Decoder γ}
    (h : (program >>= fun a => next a >>= last).Runs d) : ((program >>= next) >>= last).Runs d := by
  rw [Runs, step_bind, step_bind, bind_assoc]
  exact h

theorem Runs.map (h : program.Runs d) (g : α → β) :
    (g <$> program).Runs (d >>= fun a => Pure.pure (g a)) :=
  h.bind fun a => runs_pure (g a)

theorem Runs.within (h : program.Runs d) : (Program.within program).Runs (Codec.within d) := by
  rw [Runs, step_within, h, Copier.reading_within]

/-! Lists on a machine and without one are not the same: a program agrees up to a translation. -/

section
variable {γ : Type} {g : α → γ} {d : Decoder γ} {f : γ → Decoder β}

/-- What follows a program has to agree with what follows the translation. -/
theorem Runs.bind_of_map (h : (g <$> program).Runs d) (hnext : ∀ a, (next a).Runs (f (g a))) :
    (program >>= next).Runs (d >>= f) := by
  rw [Runs, step_bind, Copier.reading_bind, ← h, step_map, bind_assoc]
  refine congrArg (program.step >>= ·) (funext fun a => ?_)
  rw [pure_bind]
  exact hnext a

theorem Runs.within_of_map (h : (g <$> program).Runs d) :
    (g <$> Program.within program).Runs (Codec.within d) := by
  rw [Runs, step_map, step_within, Copier.reading_within, ← h, step_map, within_bind]
  simp only [within_pure]

end

end

/-! ### Values -/

theorem runs_byte : (call .byte).Runs readByte := rfl

theorem runs_number : (call .number).Runs (readUnsigned 64) := rfl

theorem runs_unsigned (width : Nat) : (call (.unsigned width)).Runs (readUnsigned width) := rfl

theorem runs_integer : (call .integer).Runs (readSigned 64) := rfl

theorem runs_signed (width : Nat) : (call (.signed width)).Runs (readSigned width) := rfl

theorem runs_fixed (count : Nat) : (call (.fixed count)).Runs (.ofUnread (takeFixed count)) := rfl

theorem runs_content : (call .content).Runs readBlock := rfl

theorem runs_text : (call .text).Runs readText := rfl

def u64 : Program UInt64 := Nat.toUInt64 <$> call .number

def u32 : Program UInt32 := Nat.toUInt32 <$> call (.unsigned 32)

/-- A value of a kind. -/
def value : Kind → Program Value
  | .byte => Value.byte <$> call .byte
  | .u16 => Value.u16 <$> Nat.toUInt16 <$> call (.unsigned 16)
  | .u32 => Value.u32 <$> u32
  | .u64 => Value.u64 <$> u64
  | .i16 => Value.i16 <$> Int.toInt16 <$> call (.signed 16)
  | .i32 => Value.i32 <$> Int.toInt32 <$> call (.signed 32)
  | .i64 => Value.i64 <$> Int.toInt64 <$> call .integer
  | .fixedU32 => Value.fixedU32 <$> Nat.toUInt32 <$> call (.fixed 4)
  | .fixedU64 => Value.fixedU64 <$> Nat.toUInt64 <$> call (.fixed 8)
  | .block => Value.block <$> call .content
  | .text => Value.text <$> call .text

theorem runs_u64 : u64.Runs readU64 := runs_number.map _

theorem runs_u32 : u32.Runs readU32 := (runs_unsigned 32).map _

theorem runs_value (kind : Kind) : (value kind).Runs kind.read := by
  cases kind with
  | byte => exact runs_byte.map _
  | u16 => exact ((runs_unsigned 16).map _).map _
  | u32 => exact runs_u32.map _
  | u64 => exact runs_u64.map _
  | i16 => exact ((runs_signed 16).map _).map _
  | i32 => exact ((runs_signed 32).map _).map _
  | i64 => exact (runs_integer.map _).map _
  | fixedU32 => exact ((runs_fixed 4).map _).map _
  | fixedU64 => exact ((runs_fixed 8).map _).map _
  | block => exact runs_content.map _
  | text => exact runs_text.map _

/-! ### Lists -/

/-- Runs a program so many times. -/
def times (item : Program α) : (count : Nat) → Program (List α)
  | 0 => return []
  | count + 1 => do
    let first ← item
    let others ← times item count
    return first :: others

@[simp] theorem step_times (item : Program α) (count : Nat) :
    (times item count).step = Codec.times item.step count := by
  induction count with
  | zero => rfl
  | succ count ih =>
    unfold times Codec.times
    simp only [step_bind, step_pure, ih]

/-- Reads a count and that many items; before, it is looked at how many bytes are left. -/
def counted (item : Program α) : Program (List α) := do
  let count ← call .number
  let _ ← call .remaining
  times (within item) count

/-- Reads the count of a list. -/
def start : Program Listing := do
  let declared ← call .number
  if h : declared ≤ maxCount then return .ofCount declared h else fail (.overflow 64)

/-- Reads the next item of a list. -/
def next (list : Listing) (item : Program α) : Program (Option α × Listing) :=
  if h : list.consumed = list.declared then return (none, list)
  else do
    let a ← within item
    let list' ← call (.pass list h)
    return (some a, list')

/-- Asks for the next item again and again until there is none, or so many times. -/
def drain (item : Program Unit) : (rounds : Nat) → Listing → Program Listing
  | 0, list => return list
  | rounds + 1, list => do
    match ← next list item with
    | (none, list') => return list'
    | (some (), list') => drain item rounds list'

/-- Skips the items that are left, each made of `perItem` numbers. -/
def skipRest (list : Listing) (perItem : Nat) : Program Listing := do
  let left ← call (.left list)
  let available ← call .remaining
  let numbers := min (left * perItem) maxCount
  if available < numbers then fail (.truncated numbers available)
  else do
    within (call (.skip .number numbers))
    return list.drained

/-- Reads items to the end of the data, or so many. -/
def toEnd (item : Program α) : (rounds : Nat) → Program (List α)
  | 0 => return []
  | rounds + 1 => do
    if (← call .remaining) = 0 then return []
    else do
      let first ← within item
      let others ← toEnd item rounds
      return first :: others

section
variable {item : Program α} {d : Decoder α}

theorem Runs.times (h : item.Runs d) (count : Nat) :
    (Program.times item count).Runs (Codec.times d count) := by
  rw [Runs, step_times, h, Copier.reading_times]

theorem Runs.counted (h : item.Runs d) : (Program.counted item).Runs (readCounted d) :=
  runs_number.bind fun count => h.within.times count

theorem runs_start : (Listing.toCountedList <$> start).Runs CountedList.start := by
  refine Runs.assoc (runs_number.bind_of_ensures (ensures_unsigned 64) fun n hn => ?_)
  have hfits : n ≤ maxCount := Nat.le_sub_one_of_lt hn
  rw [dif_pos hfits]
  exact runs_pure _

theorem Runs.next (h : item.Runs d) (list : Listing) :
    (Prod.map id Listing.toCountedList <$> Program.next list item).Runs
      (list.toCountedList.next d) := by
  unfold Program.next CountedList.next
  by_cases hall : list.consumed = list.declared
  · rw [dif_pos hall, dif_pos hall]
    exact runs_pure _
  · rw [dif_neg hall, dif_neg hall]
    exact Runs.assoc (h.within.bind fun a => runs_pure _)

/-- **A list is drained in as many rounds as items are left**, and one to see that there is no
other. -/
theorem step_drain (item : Program Unit) (list : Listing) {rounds : Nat}
    (hrounds : list.declared - list.consumed < rounds) :
    (drain item rounds list).step =
      Codec.times (Codec.within item.step) (list.declared - list.consumed) >>= fun _ =>
        Pure.pure list.drained := by
  induction rounds generalizing list with
  | zero => exact absurd hrounds (Nat.not_lt_zero _)
  | succ rounds ih =>
    have hle := list.consumed_le
    rw [drain, Program.next]
    by_cases hall : list.consumed = list.declared
    · rw [dif_pos hall, hall, Nat.sub_self, list.drained_eq_self hall]
      rfl
    · have hleft : list.declared - list.consumed = list.declared - (list.consumed + 1) + 1 := by
        omega
      rw [dif_neg hall, hleft, Codec.times, step_bind, step_bind, step_within]
      simp only [bind_assoc, pure_bind]
      refine congrArg (Codec.within item.step >>= ·) (funext fun _ => ?_)
      exact ih (list.passed hall) (show list.declared - (list.consumed + 1) < rounds by omega)

theorem Runs.drain {item : Program Unit} {d : Decoder Unit} (h : item.Runs d) (list : Listing)
    {rounds : Nat} (hrounds : list.declared - list.consumed < rounds) :
    (Listing.toCountedList <$> Program.drain item rounds list).Runs
      (list.toCountedList.drain d) := by
  show (Program.drain item rounds list).step >>= (fun list => Pure.pure list.toCountedList) = _
  rw [step_drain item list hrounds, h, CountedList.drain_eq, Copier.reading_bind,
    Copier.reading_times, Copier.reading_within, bind_assoc]
  rfl

theorem runs_skipRest (list : Listing) (perItem : Nat) :
    (Listing.toCountedList <$> skipRest list perItem).Runs
      (list.toCountedList.skipRest perItem) := by
  have hskip : (within (call (.skip .number (list.numbersLeft perItem)))).Runs
      (Codec.within (skipVarints (list.numbersLeft perItem))) := Runs.within rfl
  funext t
  rw [Copier.reading, CountedList.skipRest_eq]
  -- both look at the bytes that are left, and then
  show (Listing.toCountedList <$>
    (if t.input.remaining < list.numbersLeft perItem then
      fail (.truncated (list.numbersLeft perItem) t.input.remaining)
    else do
      within (call (.skip .number (list.numbersLeft perItem)))
      return list.drained)).step t = _
  split
  · rfl
  · exact congrFun (Runs.assoc (hskip.bind fun _ => runs_pure _)) t

/-- **An open-ended list of items that take up bytes is read to its end** in as many rounds as
there are bytes. -/
theorem step_toEnd (h : item.Runs d)
    (hshorter : ∀ r a r', d r = .ok a r' → r'.remaining < r.remaining) {rounds : Nat} {t : Transfer}
    (hrounds : t.input.remaining ≤ rounds) :
    (toEnd item rounds).step t = Copier.reading (readToEnd d) t := by
  induction rounds generalizing t with
  | zero =>
    have hnil := Reader.unread_eq_nil_iff.2 (Nat.le_zero.1 hrounds)
    rw [Copier.reading_of_ok (readToEnd_of_nil d hnil)]
    rfl
  | succ rounds ih =>
    show (if t.input.remaining = 0 then return [] else do
      let first ← within item
      let others ← toEnd item rounds
      return first :: others : Program (List α)).step t = _
    by_cases hnone : t.input.remaining = 0
    · have hnil := Reader.unread_eq_nil_iff.2 hnone
      rw [if_pos hnone, Copier.reading_of_ok (readToEnd_of_nil d hnil)]
      rfl
    have hsome : t.input.unread ≠ [] := mt Reader.unread_eq_nil_iff.1 hnone
    rw [if_neg hnone, step_bind, h.within]
    cases hd : d t.input with
    | error e r =>
      have herror : Codec.within d t.input = .error e.within r :=
        within_eq_error_iff.2 ⟨e, hd, rfl⟩
      rw [bind_of_error (Copier.reading_of_error herror),
        Copier.reading_of_error (readToEnd_of_error hsome hd)]
    | ok a r =>
      have hlt := hshorter _ a r hd
      have hothers := ih (t := { t with input := r }) (show r.remaining ≤ rounds by omega)
      rw [bind_of_ok (Copier.reading_of_ok (within_eq_ok_iff.2 hd)), Copier.reading,
        readToEnd_of_ok hsome hd hlt, step_bind]
      show _ = Copier.reading (readToEnd d >>= fun others => Pure.pure (a :: others))
        { t with input := r }
      rw [Copier.reading_bind]
      exact bind_congr_of_eq hothers

end

end Program
end Folio.Codec
