import Folio.Codec.Counted
import Folio.Proofs.Codec.Reads

/-! # Items in a row

Any number of items in a row is measured at once, each from where the one before it ends
(`Span.row`).  What moves over such a span could as well take the items one by one, if it puts
everything back when one of them fails (`putBack`): this holds of a skip (`skipSpan_andThen`) and
of a copy (`copySpan_andThen`), and it is one argument (`putBack_andThen`).

The items of a counted list are not measured at once; draining the list takes them one by one
(`CountedList.drain_eq`).
-/
namespace Folio.Codec

variable {α : Type} {σ : Type}

/-! ## Measuring -/

namespace Span

/-- What `first` measures, and what `others` measures behind it. -/
def andThen (first others : Span) : Span := fun bytes => do
  let n ← first bytes
  let m ← (others (bytes.drop n)).mapError Error.within
  return n + m

/-- Values in a row, each of which `one` measures. -/
def row (one : Span) : (count : Nat) → Span
  | 0 => fun _ => .ok 0
  | count + 1 => one.andThen (row one count)

theorem varints_eq_row (count : Nat) : varints count = row Varint.extent count := by
  induction count with
  | zero => rfl
  | succ count ih =>
    rw [row, ← ih]
    rfl

theorem blocks_eq_row (count : Nat) : blocks count = row block count := by
  induction count with
  | zero => rfl
  | succ count ih =>
    rw [row, ← ih]
    rfl

variable {first others : Span} {bytes : Bytes} {n : Nat} {e : Error}

theorem andThen_of_ok (h : first bytes = .ok n) :
    first.andThen others bytes = ((others (bytes.drop n)).mapError Error.within).map (n + ·) := by
  unfold andThen
  rw [h]
  dsimp only [bind, Except.bind]
  cases others (bytes.drop n) <;> rfl

theorem andThen_of_error (h : first bytes = .error e) : first.andThen others bytes = .error e := by
  unfold andThen
  rw [h]
  rfl

end Span

/-! ## Putting back -/

/-- Runs a step; should it fail, everything is put back. -/
def putBack (step : EStateM Error σ α) : EStateM Error σ α := fun s =>
  match step s with
  | .ok a s' => .ok a s'
  | .error e _ => .error e s

theorem Copier.atomically_eq_putBack (copy : Copier α) : Copier.atomically copy = putBack copy := by
  funext t
  unfold atomically putBack
  cases copy t <;> rfl

section
variable {step : EStateM Error σ α} {s s' : σ} {a : α} {e : Error}

theorem putBack_of_error (h : step s = .error e s') : putBack step s = .error e s := by
  rw [putBack, h]

theorem putBack_eq_ok_iff : putBack step s = .ok a s' ↔ step s = .ok a s' := by
  unfold putBack
  cases step s <;> simp

theorem putBack_eq_error_iff :
    putBack step s = .error e s' ↔ s' = s ∧ ∃ now, step s = .error e now := by
  unfold putBack
  cases step s with
  | ok => simp
  | error => simp [and_comm, eq_comm]

end

/-- What is measured at once is passed over piece by piece, if a failure puts everything back:
`unread` is what a step finds before it and `pass` how it moves. -/
theorem putBack_andThen {unread : σ → Bytes} {pass : σ → Nat → σ}
    {step : Span → EStateM Error σ Unit}
    (hstep : ∀ span s, step span s =
      match span (unread s) with
      | .ok n => .ok () (pass s n)
      | .error e => .error e s)
    (hunread : ∀ s n, unread (pass s n) = (unread s).drop n)
    (hpass : ∀ s n m, pass (pass s n) m = pass s (n + m)) (first others : Span) :
    step (first.andThen others) = putBack (step first >>= fun _ => within (step others)) := by
  funext s
  cases hfirst : first (unread s) with
  | error e =>
    have herror : step first s = .error e s := by rw [hstep, hfirst]
    rw [putBack_of_error (bind_of_error herror), hstep, Span.andThen_of_error hfirst]
  | ok n =>
    have hok : step first s = .ok () (pass s n) := by rw [hstep, hfirst]
    rw [putBack, bind_of_ok hok, within, hstep, hstep, hunread, Span.andThen_of_ok hfirst]
    cases others ((unread s).drop n) with
    | error e => rfl
    | ok m => simp only [Except.mapError, Except.map, hpass]

/-! ## Skips and copies -/

theorem skipSpan_eq (span : Span) (r : Reader) :
    skipSpan span r =
      match span r.unread with
      | .ok n => .ok () (r.advance n)
      | .error e => .error e r := by
  show EStateM.bind (takeSpan span) (fun _ => pure ()) r = _
  simp only [EStateM.bind, takeSpan, Decoder.ofUnread]
  cases span r.unread <;> rfl

/-- **Items are skipped one after another**, and none if one of them fails. -/
theorem skipSpan_andThen (first others : Span) :
    skipSpan (first.andThen others) =
      putBack (skipSpan first >>= fun _ => within (skipSpan others)) :=
  putBack_andThen skipSpan_eq (fun _ _ => rfl) Reader.advance_advance first others

theorem append_append (output : Array UInt8) (bytes more : Bytes) :
    output ++ bytes ++ more = output ++ (bytes ++ more) := by
  apply Array.ext'
  simp

theorem append_nil (output : Array UInt8) : output ++ ([] : Bytes) = output := by
  apply Array.ext'
  simp

/-- Cutting an output to its old length takes back what was appended. -/
theorem take_append (output : Array UInt8) (bytes : Bytes) :
    (output ++ bytes).take output.size = output := by
  apply Array.ext'
  simp

theorem copySpan_eq (span : Span) (t : Transfer) :
    copySpan span t =
      match span t.input.unread with
      | .ok n => .ok () { input := t.input.advance n, output := t.output ++ t.input.unread.take n }
      | .error e => .error e t := by
  show EStateM.bind (Copier.reading (takeSpan span)) Copier.append t = _
  simp only [EStateM.bind, Copier.reading, takeSpan, Decoder.ofUnread]
  cases span t.input.unread <;> rfl

/-- Behind the next `n` bytes, which have been copied. -/
def Transfer.copied (t : Transfer) (n : Nat) : Transfer where
  input := t.input.advance n
  output := t.output ++ t.input.unread.take n

theorem Transfer.copied_copied (t : Transfer) (n m : Nat) :
    (t.copied n).copied m = t.copied (n + m) := by
  have htake : t.input.unread.take (n + m) =
      t.input.unread.take n ++ (t.input.advance n).unread.take m := List.take_add
  simp only [copied, Reader.advance_advance, append_append, htake]

/-- **Items are copied one after another**, and none if one of them fails. -/
theorem copySpan_andThen (first others : Span) :
    copySpan (first.andThen others) =
      Copier.atomically (copySpan first >>= fun _ => within (copySpan others)) := by
  rw [Copier.atomically_eq_putBack]
  exact @putBack_andThen _ (fun t : Transfer => t.input.unread) _ _ copySpan_eq (fun _ _ => rfl)
    Transfer.copied_copied first others

/-! ## Counted lists -/

namespace CountedList

/-- There is nothing to do for a list whose items are all consumed. -/
theorem drained_eq_self {list : CountedList} (h : list.consumed = list.declared) :
    list.drained = list := by
  cases list
  cases h
  rfl

/-- **A list is drained item by item**, and then no item is left. -/
theorem drain_eq (list : CountedList) (item : Decoder Unit) :
    list.drain item =
      times (within item) (list.declared - list.consumed) >>= fun _ => pure list.drained := by
  induction hn : list.declared - list.consumed generalizing list with
  | zero =>
    have hle := list.consumed_le
    have heq : list.consumed = list.declared := by omega
    rw [drain, dif_pos heq, drained_eq_self heq]
    rfl
  | succ n ih =>
    rw [drain, dif_neg (by omega)]
    simp only [times, bind_assoc, pure_bind]
    congr 1
    funext _
    exact ih _ (by simp only; omega)

/-- A list after every item can be closed. -/
theorem finish_drained (list : CountedList) : list.drained.finish = .ok () := if_pos rfl

end CountedList

end Folio.Codec
