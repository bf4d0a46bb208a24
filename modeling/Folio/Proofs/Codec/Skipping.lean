import Folio.Proofs.Codec.Atomicity
import Folio.Proofs.Codec.Grammar

/-! # Skipping beside reading

A skip measures any number of items from where it stands and moves once, while a reader takes
them one by one.  They come to the same place.  For items of one sort this is said by the grammar:
a row of items is skipped exactly where a `Series` of their spellings stands (`parses_row`), which
is also where a reader of each of them gets through.

For values that are put together from several sorts it is said by the copy, which walks as a skip
does and writes besides (`Copier.SkippedBy`).  So whatever is known of a copy and a decoder holds
of the skip (`Decoder.CopiedBy.skips`).
-/
namespace Folio.Codec

open Decoder

variable {α β σ : Type}

/-! ## Items in a row -/

theorem Decoder.Parses.putBack {S : Bytes → α → Prop} {d : Decoder α} (hd : d.Parses S) :
    Parses (Codec.putBack d) S := by
  intro r a r'
  rw [← hd r a r', putBack_eq_ok_iff]

theorem skipSpan_eq_ok_iff {span : Span} {r r' : Reader} {u : Unit} :
    skipSpan span r = .ok u r' ↔ ∃ n, span r.unread = .ok n ∧ r' = r.advance n := by
  rw [skipSpan_eq]
  cases span r.unread <;> simp [eq_comm]

/-- **A row of items is skipped where their spellings stand one after another**, and nowhere
else. -/
theorem parses_row {one : Span} {S : Bytes → α → Prop}
    (hone : (skipSpan one).Parses fun code _ => ∃ a, S code a) (count : Nat) :
    (skipSpan (one.row count)).Parses fun code _ =>
      ∃ items : List α, items.length = count ∧ Series S code items := by
  induction count with
  | zero =>
    intro r u r'
    rw [skipSpan_eq_ok_iff]
    constructor
    · rintro ⟨n, hn, rfl⟩
      cases hn
      exact ⟨[], List.nil_prefix, ⟨[], rfl, .nil⟩, rfl⟩
    · rintro ⟨code, -, ⟨items, hlength, hseries⟩, rfl⟩
      cases hseries with
      | nil => exact ⟨0, rfl, rfl⟩
      | cons => cases hlength
  | succ count ih =>
    rw [Span.row, skipSpan_andThen]
    refine (hone.bind fun _ => ih.within).putBack.congr fun code u => ?_
    constructor
    · rintro ⟨front, more, -, rfl, ⟨a, hfirst⟩, items, hlength, hseries⟩
      exact ⟨a :: items, congrArg Nat.succ hlength, .cons hfirst hseries⟩
    · rintro ⟨items, hlength, hseries⟩
      cases hseries with
      | nil => cases hlength
      | @cons front more a items first hothers =>
        exact ⟨front, more, (), rfl, ⟨a, first⟩, items, Nat.succ.inj hlength, hothers⟩

theorem parses_extent :
    (skipSpan Varint.extent).Parses fun code _ => ∃ n, Varint.Spells code n := by
  intro r u r'
  rw [skipSpan_eq_ok_iff]
  constructor
  · rintro ⟨n, hextent, rfl⟩
    obtain ⟨code, rest, hunread, hspells⟩ := Varint.exists_spells_of_extent hextent
    rw [hunread, hspells.extent_eq] at hextent
    cases hextent
    exact ⟨code, ⟨rest, hunread.symm⟩, ⟨_, hspells⟩, rfl⟩
  · rintro ⟨code, ⟨rest, hrest⟩, ⟨n, hspells⟩, rfl⟩
    exact ⟨code.length, by rw [← hrest, hspells.extent_eq], rfl⟩

/-- **Numbers are skipped by their bytes.**  Whether they fit into 64 bits is not asked. -/
theorem parses_skipVarints (count : Nat) :
    (skipVarints count).Parses fun code _ =>
      ∃ values : List Nat, values.length = count ∧ Series Varint.Spells code values := by
  rw [skipVarints, Span.varints_eq_row]
  exact parses_row parses_extent count

/-- The bytes of a block: a number, and as many bytes as it says. -/
def Block.Spells (code block : Bytes) : Prop :=
  ∃ lead, Varint.Spells lead block.length ∧ block.length < 2 ^ 64 ∧ code = lead ++ block

theorem parses_block : readBlock.Parses Block.Spells := by
  refine parses_ofUnread fun bytes block n => ?_
  rw [takeBlock_eq_ok_iff]
  constructor
  · rintro ⟨lead, hprefix, hspells, hfits, rfl⟩
    exact ⟨lead ++ block, hprefix, ⟨lead, hspells, hfits, rfl⟩, rfl⟩
  · rintro ⟨-, hprefix, ⟨lead, hspells, hfits, rfl⟩, rfl⟩
    exact ⟨lead, hprefix, hspells, hfits, rfl⟩

/-- One block is skipped as it is read. -/
theorem skipSpan_block_iff {r r' : Reader} {u : Unit} :
    skipSpan Span.block r = .ok u r' ↔ ∃ block, readBlock r = .ok block r' := by
  rw [skipSpan_eq_ok_iff, Span.block_eq]
  unfold readBlock ofUnread
  cases takeBlock r.unread <;> simp [Except.map, eq_comm]

/-- **Blocks are skipped as they are read**, one after another. -/
theorem skipBlocks_eq_ok_iff {count : Nat} {r r' : Reader} {u : Unit} :
    skipBlocks count r = .ok u r' ↔ ∃ blocks, times readBlock count r = .ok blocks r' := by
  have hone : (skipSpan Span.block).Parses fun code _ => ∃ block, Block.Spells code block := by
    intro r u r'
    simp only [skipSpan_block_iff, parses_block r _ r']
    constructor
    · rintro ⟨block, code, hprefix, hspells, rfl⟩
      exact ⟨code, hprefix, ⟨block, hspells⟩, rfl⟩
    · rintro ⟨code, hprefix, ⟨block, hspells⟩, rfl⟩
      exact ⟨block, code, hprefix, hspells, rfl⟩
  rw [skipBlocks, Span.blocks_eq_row, parses_row hone count r u r']
  simp only [parses_block.times count r _ r']
  constructor
  · rintro ⟨code, hprefix, ⟨blocks, hlength, hseries⟩, rfl⟩
    exact ⟨blocks, code, hprefix, ⟨hlength, hseries⟩, rfl⟩
  · rintro ⟨blocks, code, hprefix, ⟨hlength, hseries⟩, rfl⟩
    exact ⟨code, hprefix, ⟨blocks, hlength, hseries⟩, rfl⟩

/-! ## Walking without writing -/

/-- **A skip walks as a copy does**: it comes to the same result at the same place, and nothing is
written. -/
def Copier.SkippedBy (copy : Copier α) (skip : Decoder α) : Prop :=
  ∀ t, skip t.input =
    match copy t with
    | .ok a t' => .ok a t'.input
    | .error e t' => .error e t'.input

namespace Copier

variable {copy : Copier α} {skip : Decoder α}

theorem skippedBy_span (span : Span) : (copySpan span).SkippedBy (skipSpan span) := by
  intro t
  rw [copySpan_eq, skipSpan_eq]
  cases span t.input.unread <;> rfl

theorem skippedBy_number : copyNumber.SkippedBy (readUnsigned 64) := by
  intro t
  rw [copyNumber_eq]
  cases hdecode : Varint.decode t.input.unread with
  | error e => exact ofUnread_error (takeUnsigned_error hdecode)
  | ok number => exact readUnsigned_of_decode hdecode

theorem skippedBy_pure (a : α) : SkippedBy (pure a) (pure a) := fun _ => rfl

theorem SkippedBy.bind {more : α → Copier β} {rest : α → Decoder β} (h : copy.SkippedBy skip)
    (hmore : ∀ a, (more a).SkippedBy (rest a)) : (copy >>= more).SkippedBy (skip >>= rest) := by
  intro t
  have hskip := h t
  cases hcopy : copy t with
  | ok a t' =>
    rw [hcopy] at hskip
    rw [bind_of_ok hcopy, bind_of_ok hskip]
    exact hmore a t'
  | error e t' =>
    rw [hcopy] at hskip
    rw [bind_of_error hcopy, bind_of_error hskip]

theorem SkippedBy.within (h : copy.SkippedBy skip) :
    SkippedBy (Codec.within copy) (Codec.within skip) := by
  intro t
  rw [Codec.within, Codec.within, h t]
  cases copy t <;> rfl

theorem SkippedBy.times (h : copy.SkippedBy skip) (count : Nat) :
    SkippedBy (Codec.times copy count) (Codec.times skip count) := by
  induction count with
  | zero => exact skippedBy_pure []
  | succ count ih => exact h.bind fun a => ih.bind fun others => skippedBy_pure _

theorem SkippedBy.ok (h : copy.SkippedBy skip) {r : Reader} {output : Array UInt8} {a : α}
    {t : Transfer} (hcopy : copy { input := r, output } = .ok a t) :
    skip r = .ok a t.input := by
  have hskip := h { input := r, output }
  rwa [hcopy] at hskip

theorem SkippedBy.error (h : copy.SkippedBy skip) {r : Reader} {output : Array UInt8} {e : Error}
    {t : Transfer} (hcopy : copy { input := r, output } = .error e t) :
    skip r = .error e t.input := by
  have hskip := h { input := r, output }
  rwa [hcopy] at hskip

end Copier

/-- **What is decoded is skipped**, and a decoder that ran out of data did so for the skip as
well. -/
theorem Decoder.CopiedBy.skips {d : Decoder α} {copy : Copier β} {skip : Decoder β} {tally : α → β}
    (hd : d.CopiedBy copy fun a b => b = tally a) (hskip : copy.SkippedBy skip) (r : Reader) :
    (∀ a r', d r = .ok a r' → skip r = .ok (tally a) r') ∧
      ∀ e r', e.RanOut → d r = .error e r' → ∃ r'', skip r = .error e r'' := by
  constructor
  · intro a r' hok
    obtain ⟨n, -, -, hcopied⟩ := hd.agrees.copied hok
    have hcopy := hcopied #[]
    rw [Copier.atomically_eq_putBack, putBack_eq_ok_iff] at hcopy
    exact hskip.ok hcopy
  · intro e r' hshort herror
    have hcopy := hd.agrees.short herror hshort #[]
    rw [Copier.atomically_eq_putBack, putBack_eq_error_iff] at hcopy
    obtain ⟨-, t, hfailed⟩ := hcopy
    exact ⟨_, hskip.error hfailed⟩

/-! ## What a skip fails with -/

/-- Whatever the step fails with is a fault of the data: they ran out, or they are refused. -/
def BlamesData (step : EStateM Error σ α) : Prop :=
  ∀ s e s', step s = .error e s' → e.RanOut ∨ e.Refuses

theorem Error.within_ranOut_or_refuses {e : Error} (h : e.RanOut ∨ e.Refuses) :
    e.within.RanOut ∨ e.within.Refuses := by
  rcases h with hshort | hrefuses
  · exact .inl hshort.within
  · exact .inr (hrefuses.within_eq.symm ▸ hrefuses)

theorem blamesData_pure (a : α) : BlamesData (pure a : EStateM Error σ α) := by
  intro s e s' h
  cases h

theorem BlamesData.bind {step : EStateM Error σ α} {f : α → EStateM Error σ β}
    (h : BlamesData step) (hf : ∀ a, BlamesData (f a)) : BlamesData (step >>= f) := by
  intro s e s' hrun
  cases hstep : step s with
  | ok a s₁ =>
    rw [bind_of_ok hstep] at hrun
    exact hf a s₁ e s' hrun
  | error e₁ s₁ =>
    rw [bind_of_error hstep] at hrun
    cases hrun
    exact h s e s' hstep

theorem BlamesData.within {step : EStateM Error σ α} (h : BlamesData step) :
    BlamesData (Codec.within step) := by
  intro s e s' hrun
  obtain ⟨e', hstep, rfl⟩ := within_eq_error_iff.1 hrun
  exact Error.within_ranOut_or_refuses (h s e' s' hstep)

theorem BlamesData.times {item : EStateM Error σ α} (h : BlamesData item) (count : Nat) :
    BlamesData (Codec.times item count) := by
  induction count with
  | zero => exact blamesData_pure []
  | succ count ih => exact h.bind fun a => ih.bind fun others => blamesData_pure _

/-- A row of items is at fault where one of them is. -/
theorem Span.row_error {one : Span}
    (hone : ∀ bytes e, one bytes = .error e → e.RanOut ∨ e.Refuses) (count : Nat) (bytes : Bytes)
    (e : Error) (h : one.row count bytes = .error e) : e.RanOut ∨ e.Refuses := by
  induction count generalizing bytes e with
  | zero => cases h
  | succ count ih =>
    rw [Span.row] at h
    cases hfirst : one bytes with
    | error e₁ =>
      rw [Span.andThen_of_error hfirst] at h
      cases h
      exact hone bytes _ hfirst
    | ok n =>
      rw [Span.andThen_of_ok hfirst] at h
      cases hothers : one.row count (bytes.drop n) with
      | error e₁ =>
        rw [hothers] at h
        cases h
        exact Error.within_ranOut_or_refuses (ih _ _ hothers)
      | ok m =>
        rw [hothers] at h
        cases h

theorem blamesData_skipSpan {span : Span}
    (hspan : ∀ bytes e, span bytes = .error e → e.RanOut ∨ e.Refuses) :
    BlamesData (skipSpan span) := by
  intro r e r' h
  rw [skipSpan_eq] at h
  split at h
  · cases h
  · rename_i herror
    cases h
    exact hspan _ _ herror

theorem blamesData_skipVarints (count : Nat) : BlamesData (skipVarints count) := by
  rw [skipVarints, Span.varints_eq_row]
  exact blamesData_skipSpan (Span.row_error (fun _ _ => Varint.extent_error) count)

theorem blamesData_skipBlocks (count : Nat) : BlamesData (skipBlocks count) := by
  rw [skipBlocks, Span.blocks_eq_row]
  refine blamesData_skipSpan (Span.row_error (fun bytes e h => ?_) count)
  rw [Span.block_eq] at h
  cases htake : takeBlock bytes with
  | error e₁ =>
    rw [htake] at h
    cases h
    exact error_of_takeBlock htake
  | ok taken =>
    rw [htake] at h
    cases h

theorem blamesData_skipRaw (count : Nat) : BlamesData (skipRaw count) := by
  refine blamesData_skipSpan fun bytes e h => ?_
  unfold Span.raw at h
  split at h <;> cases h
  exact .inl trivial

theorem blamesData_unsigned : BlamesData (readUnsigned 64) := by
  intro r e r' h
  cases hdecode : Varint.decode r.unread with
  | error e₁ =>
    have herror : readUnsigned 64 r = .error e₁ r := ofUnread_error (takeUnsigned_error hdecode)
    rw [herror] at h
    cases h
    exact Varint.error_of_decode hdecode
  | ok number =>
    rw [readUnsigned_of_decode hdecode] at h
    cases h

end Folio.Codec
