import Folio.Proofs.Codec.Measuring

/-! # Reads that take what is there

A read on a machine takes something off the unread bytes (`Checked.Takes`) and is determined by what
it takes: it adds to the position what a reader drops from its bytes.  Some reads find out late that
they fail, when a number has been passed over that is too large or is the length of a block that is
not there; then they go back to where they began.  Going back is going backwards, and it comes to
the same as looking at everything first (`Takes.andThen`).
-/
namespace Folio.Codec

variable {α β : Type}

namespace Checked

variable {block : Bytes}

/-- Takes off the unread bytes what `f` finds there, in one go. -/
def taking (block : Bytes) (f : Bytes → Except Error (α × Nat)) : Checked α := fun p =>
  match f (block.drop p.position) with
  | .ok (a, n) => some (.ok a, p.pass n)
  | .error e => some (.error e, p)

/-- **What a step takes off the unread bytes.**  It does not fault, it takes what is there, and if
it fails it has not moved. -/
structure Takes (block : Bytes) (step : Checked α) (f : Bytes → Except Error (α × Nat)) : Prop where
  run {p : Place} (hp : p.position ≤ block.length) : step p = taking block f p
  inside {bytes : Bytes} {a : α} {n : Nat} (h : f bytes = .ok (a, n)) : n ≤ bytes.length

section
variable {f : Bytes → Except Error (α × Nat)} {p : Place} {a : α} {n : Nat} {e : Error}

theorem taking_ok (h : f (block.drop p.position) = .ok (a, n)) :
    taking block f p = some (.ok a, p.pass n) := by
  rw [taking, h]

theorem taking_error (h : f (block.drop p.position) = .error e) :
    taking block f p = some (.error e, p) := by
  rw [taking, h]

end

/-! ## Going back -/

/-- Two takes one after another, the second of which depends on what the first one found. -/
def takeThen (f : Bytes → Except Error (α × Nat)) (g : α → Bytes → Except Error (β × Nat)) :
    Bytes → Except Error (β × Nat) := fun bytes => do
  let (a, n) ← f bytes
  let (b, m) ← g a (bytes.drop n)
  return (b, n + m)

section
variable {f : Bytes → Except Error (α × Nat)} {g : α → Bytes → Except Error (β × Nat)}
  {bytes : Bytes} {a : α} {n : Nat} {e : Error}

theorem takeThen_ok (h : f bytes = .ok (a, n)) :
    takeThen f g bytes = (g a (bytes.drop n)).map (Prod.map id (n + ·)) := by
  rw [takeThen, h]
  show (g a (bytes.drop n) >>= fun taken => pure (taken.1, n + taken.2)) = _
  cases g a (bytes.drop n) <;> rfl

theorem takeThen_error (h : f bytes = .error e) : takeThen f g bytes = .error e := by
  rw [takeThen, h]
  rfl

theorem takeThen_inside (hf : ∀ bytes a n, f bytes = .ok (a, n) → n ≤ bytes.length)
    (hg : ∀ a bytes b m, g a bytes = .ok (b, m) → m ≤ bytes.length) {b : β} {k : Nat}
    (h : takeThen f g bytes = .ok (b, k)) : k ≤ bytes.length := by
  cases hfirst : f bytes with
  | error e =>
    rw [takeThen_error hfirst] at h
    cases h
  | ok taken =>
    obtain ⟨a, n⟩ := taken
    rw [takeThen_ok hfirst] at h
    cases hsecond : g a (bytes.drop n) with
    | error e =>
      rw [hsecond] at h
      cases h
    | ok taken =>
      obtain ⟨b, m⟩ := taken
      rw [hsecond] at h
      cases h
      have hn := hf _ _ _ hfirst
      have hm := hg _ _ _ _ hsecond
      rw [List.length_drop] at hm
      show n + m ≤ bytes.length
      omega

end

section
variable {first : Checked α} {second : α → Checked β} {p p' p'' : Place} {a : α} {b : β} {e : Error}

theorem andThen_of_ok (h : first p = some (.ok a, p')) (h' : second a p' = some (.ok b, p'')) :
    andThen block first second p = some (.ok b, p'') := by
  rw [andThen, position_bind, bind_of_ok h, tryCatch_of_ok h']

theorem andThen_of_error (h : first p = some (.error e, p')) :
    andThen block first second p = some (.error e, p') := by
  rw [andThen, position_bind, bind_of_error h]

/-- **Going back goes backwards**, as long as no step does. -/
theorem andThen_back (h : first p = some (.ok a, p')) (h' : second a p' = some (.error e, p''))
    (hforward : p.position ≤ p''.position) (hinside : p''.position ≤ block.length) :
    andThen block first second p = some (.error e, { p'' with position := p.position }) := by
  rw [andThen, position_bind, bind_of_ok h, tryCatch_of_error h']
  exact bind_of_ok (rewind_eq hinside hforward)

end

/-- **Going back after the second step is not to have moved in the first one.** -/
theorem Takes.andThen {first : Checked α} {second : α → Checked β}
    {f : Bytes → Except Error (α × Nat)} {g : α → Bytes → Except Error (β × Nat)}
    (hfirst : Takes block first f) (hsecond : ∀ a, Takes block (second a) (g a)) :
    Takes block (andThen block first second) (takeThen f g) where
  run {p} hp := by
    have hrun := hfirst.run hp
    cases hf : f (block.drop p.position) with
    | error e =>
      rw [taking_error hf] at hrun
      rw [andThen_of_error hrun, taking_error (takeThen_error hf)]
    | ok taken =>
      obtain ⟨a, n⟩ := taken
      have hn := hfirst.inside hf
      rw [List.length_drop] at hn
      rw [taking_ok hf] at hrun
      have hnow : (p.pass n).position ≤ block.length := show p.position + n ≤ _ by omega
      have hnext := (hsecond a).run hnow
      have hdrop : block.drop (p.pass n).position = (block.drop p.position).drop n :=
        List.drop_drop.symm
      cases hg : g a ((block.drop p.position).drop n) with
      | error e =>
        rw [taking_error (hdrop ▸ hg)] at hnext
        rw [andThen_back hrun hnext (Nat.le_add_right ..) hnow,
          taking_error (e := e) (by rw [takeThen_ok hf, hg]; rfl)]
        rfl
      | ok taken =>
        obtain ⟨b, m⟩ := taken
        rw [taking_ok (hdrop ▸ hg)] at hnext
        rw [andThen_of_ok hrun hnext,
          taking_ok (a := b) (n := n + m) (by rw [takeThen_ok hf, hg]; rfl)]
        exact congrArg (fun k => some (Except.ok b, { p with position := k })) (Nat.add_assoc ..)
  inside h := takeThen_inside (fun _ _ _ => hfirst.inside) (fun a _ _ _ => (hsecond a).inside) h

/-- What is decided without the bytes. -/
theorem takes_ofExcept (outcome : Except Error α) :
    Takes block (ofExcept outcome) fun _ => outcome.map (·, 0) where
  run {p} _ := by
    cases outcome with
    | ok a => rfl
    | error e => rfl
  inside {bytes a n} h := by
    cases outcome with
    | ok a =>
      cases h
      exact Nat.zero_le _
    | error e => cases h

theorem takes_check (holds : Prop) [Decidable holds] (a : α) (e : Error) :
    Takes block (if holds then pure a else throw e) fun _ =>
      if holds then .ok (a, 0) else .error e := by
  by_cases h : holds
  · simp only [if_pos h]
    exact takes_ofExcept (.ok a)
  · simp only [if_neg h]
    exact takes_ofExcept (.error e)

/-! ## Single values -/

theorem length_of_takeRaw {count n : Nat} {bytes taken : Bytes}
    (h : takeRaw count bytes = .ok (taken, n)) : taken.length = count := by
  unfold takeRaw at h
  split at h <;> cases h
  exact List.length_take_of_le ((hasAtLeast_iff _ _).1 ‹_›)

theorem takeFixed_eq {bytes : Bytes} (h : bytes ≠ []) (count : Nat) :
    takeFixed count bytes = (takeRaw count bytes).map (Prod.map bigEndian id) := by
  rw [takeFixed, if_neg (mt List.isEmpty_iff.1 h)]
  cases takeRaw count bytes <;> rfl

section
variable (hblock : block.length ≤ maxCount)

include hblock

/-- What is at the cursor and has been measured is passed over. -/
theorem advance_take {p : Place} (hp : p.position ≤ block.length) {n : Nat}
    (hn : n ≤ (block.drop p.position).length) :
    advance block ((block.drop p.position).take n).length p = some (.ok (), p.pass n) := by
  rw [List.length_take_of_le hn]
  rw [List.length_drop] at hn
  exact advance_eq hblock (by omega)

theorem takes_number : Takes block (number block) Varint.decode where
  run {p} hp := by
    cases hdecode : Varint.decode (block.drop p.position) with
    | error e => rw [number, bind_of_error (peek_error hblock hp hdecode), taking_error hdecode]
    | ok found =>
      obtain ⟨n, length⟩ := found
      have hle := Varint.extent_le (Varint.extent_of_decode hdecode)
      have hlength : length = ((block.drop p.position).take length).length :=
        (List.length_take_of_le hle).symm
      rw [number, bind_of_ok (peek_ok hblock hp hdecode), taking_ok hdecode]
      dsimp only
      rw [assert_of hlength, pure_bind, bind_of_ok (advance_take hblock hp hle)]
      rfl
  inside h := Varint.extent_le (Varint.extent_of_decode h)

theorem takes_integer : Takes block (integer block) (takeSigned 64) where
  run {p} hp := by
    cases hdecode : Varint.decode (block.drop p.position) with
    | error e =>
      rw [integer, bind_of_error (peek_error hblock hp hdecode),
        taking_error (takeSigned_error hdecode)]
    | ok found =>
      obtain ⟨n, length⟩ := found
      have hle := Varint.extent_le (Varint.extent_of_decode hdecode)
      rw [integer, bind_of_ok (peek_ok hblock hp hdecode), taking_ok (takeSigned_ok hdecode)]
      dsimp only
      rw [bind_of_ok (advance_take hblock hp hle)]
      rfl
  inside {bytes a n} h := by
    cases hdecode : Varint.decode bytes with
    | error e =>
      rw [takeSigned_error hdecode] at h
      cases h
    | ok found =>
      rw [takeSigned_ok hdecode] at h
      cases h
      exact Varint.extent_le (Varint.extent_of_decode hdecode)

theorem takes_unsigned (width : Nat) : Takes block (unsigned block width) (takeUnsigned width) := by
  have heq : takeUnsigned width =
      takeThen Varint.decode fun n _ =>
        if n < Varint.bound width then .ok (n, 0) else .error (.overflow width) := by
    funext bytes
    cases hdecode : Varint.decode bytes with
    | error e => rw [Decoder.takeUnsigned_error hdecode, takeThen_error hdecode]
    | ok found =>
      rw [Decoder.takeUnsigned_ok hdecode, takeThen_ok hdecode]
      split <;> rfl
  rw [heq]
  exact (takes_number hblock).andThen fun n => takes_check _ n _

theorem takes_signed (width : Nat) : Takes block (signed block width) (takeSigned width) := by
  have heq : takeSigned width =
      takeThen (takeSigned 64) fun i _ =>
        if -(Varint.bound (width - 1) : Int) ≤ i ∧ i < Varint.bound (width - 1) then .ok (i, 0)
        else .error (.overflow width) := by
    funext bytes
    cases hdecode : Varint.decode bytes with
    | error e => rw [takeSigned_error hdecode, takeThen_error (takeSigned_error hdecode)]
    | ok found =>
      rw [takeSigned_eq hdecode, takeThen_ok (takeSigned_ok hdecode)]
      split <;> rfl
  rw [heq]
  exact (takes_integer hblock).andThen fun i => takes_check _ i _

theorem takes_byte : Takes block (byte block) takeByte where
  run {p} hp := by
    rw [byte, bind_of_ok (unread_eq hp)]
    cases hrest : block.drop p.position with
    | nil => exact (taking_error (by rw [hrest]; rfl)).symm
    | cons b rest =>
      have hlength := congrArg List.length hrest
      rw [List.length_drop, List.length_cons] at hlength
      rw [taking_ok (a := b) (n := 1) (by rw [hrest]; rfl)]
      exact bind_of_ok (advance_eq hblock (by omega))
  inside {bytes b n} h := by
    cases bytes with
    | nil => cases h
    | cons b rest =>
      cases h
      exact Nat.succ_le_succ (Nat.zero_le _)

theorem takes_raw (count : Nat) : Takes block (raw block count) (takeRaw count) where
  run {p} hp := by
    have hlength : (block.drop p.position).length = block.length - p.position := List.length_drop
    rw [raw, bind_of_ok (remaining_eq hp)]
    by_cases hcount : count ≤ block.length - p.position
    · have htake : takeRaw count (block.drop p.position) =
          .ok ((block.drop p.position).take count, count) :=
        if_pos ((hasAtLeast_iff _ _).2 (hlength ▸ hcount))
      rw [if_neg (by omega), taking_ok htake]
      show (position >>= _) p = _
      rw [position_bind, add_of_le (by omega), pure_bind, slice_of_le (by omega), pure_bind,
        bind_of_ok (advance_eq hblock (by omega))]
      rfl
    · have htake : takeRaw count (block.drop p.position) =
          .error (.truncated count (block.drop p.position).length) :=
        if_neg fun h => hcount (hlength ▸ (hasAtLeast_iff _ _).1 h)
      rw [if_pos (by omega), taking_error htake, hlength]
      show (remaining block >>= _) p = _
      rw [bind_of_ok (remaining_eq hp)]
      rfl
  inside {bytes a n} h := by
    unfold takeRaw at h
    split at h <;> cases h
    exact (hasAtLeast_iff _ _).1 ‹_›

theorem takes_fixed (count : Nat) : Takes block (fixed block count) (takeFixed count) where
  run {p} hp := by
    rw [fixed, bind_of_ok (remaining_eq hp)]
    by_cases hnone : block.length - p.position = 0
    · have hempty : block.drop p.position = [] := List.drop_eq_nil_of_le (by omega)
      rw [if_pos hnone, taking_error (e := .endOfData) (by rw [hempty]; rfl)]
      rfl
    have hsome : block.drop p.position ≠ [] := fun hempty => by
      rw [List.drop_eq_nil_iff] at hempty
      omega
    have hrun := (takes_raw hblock count).run hp
    rw [if_neg hnone]
    show (raw block count >>= _) p = _
    cases htake : takeRaw count (block.drop p.position) with
    | error e =>
      rw [taking_error htake] at hrun
      rw [bind_of_error hrun, taking_error (e := e) (by rw [takeFixed_eq hsome, htake]; rfl)]
    | ok taken =>
      obtain ⟨bytes, n⟩ := taken
      rw [taking_ok htake] at hrun
      rw [bind_of_ok hrun, assert_of (length_of_takeRaw htake),
        taking_ok (a := bigEndian bytes) (n := n) (by rw [takeFixed_eq hsome, htake]; rfl)]
      rfl
  inside {bytes a n} h := by
    have hsome : bytes ≠ [] := fun hempty => by
      rw [hempty] at h
      cases h
    rw [takeFixed_eq hsome] at h
    cases htake : takeRaw count bytes with
    | error e =>
      rw [htake] at h
      cases h
    | ok taken =>
      rw [htake] at h
      cases h
      exact (takes_raw hblock count).inside htake

theorem takes_content : Takes block (content block) takeBlock :=
  (takes_number hblock).andThen (takes_raw hblock)

theorem takes_text : Takes block (text block) takeText := by
  have heq : takeText =
      takeThen takeBlock fun bytes _ => ((Utf8.decode bytes).mapError .invalidUtf8).map (·, 0) := by
    funext bytes
    cases hblock : takeBlock bytes with
    | error e => rw [takeText_error hblock, takeThen_error hblock]
    | ok found =>
      rw [takeText_eq hblock, takeThen_ok hblock]
      cases Utf8.decode found.1 <;> rfl
  rw [heq]
  exact (takes_content hblock).andThen fun bytes => takes_ofExcept _

end

end Checked
end Folio.Codec
