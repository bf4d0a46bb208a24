import Mathlib.Logic.Relation
import Folio.Database
import Folio.Proofs.Cache.Operation
import Folio.Proofs.Store.Writing

/-! # What a database holds

For what becomes of collections only three things matter: which instance is cached under
each identity, the instances, and the store.  `Holdings` is this view of a database.
Where the hook writes to the store, asking an instance in vain changes nothing of it, and
an eviction is one step: the instance is saved and leaves (`Unload`).  So whatever room a
cache makes, its holdings only shed collections, by `evict_sheds`, `resize_sheds` and
`add_holdings`.
-/
namespace Folio

open Cache (FlushHook Handle Instance Operation Pool Refused Workspace)

structure Holdings where
  /-- The instance that is cached under an identity. -/
  entry : ObjectId → Option Handle
  pool : Pool Record
  store : Store

namespace Holdings

/-- An instance is cached under an identity from now on. -/
def enter (H : Holdings) (id : ObjectId) (h : Handle) : Holdings :=
  { H with entry := fun k => if k = id then some h else H.entry k }

/-- Nothing is cached under an identity any more. -/
def leave (H : Holdings) (id : ObjectId) : Holdings :=
  { H with entry := fun k => if k = id then none else H.entry k }

/-- **An instance is saved**: it was clean, or it has been written and is clean now. -/
inductive Saved (h : Handle) (H : Holdings) : Holdings → Prop
  | clean {c : Collection} (loaded : H.pool.get? h = some c) (unchanged : c.dirty = false) :
      Saved h H H
  | written {c : Collection} {s : Store} (loaded : H.pool.get? h = some c)
      (accepted : H.store.write c = .ok s) (changed : c.dirty = true) :
      Saved h H { H with pool := H.pool.set h (c.setDirty false), store := s }

/-- **An instance leaves the cache**: nobody has pinned it or keeps readers from it, and it is
saved. -/
inductive Unload (exclude : Option ObjectId) (H : Holdings) : Holdings → Prop
  | mk {H' : Holdings} {id : ObjectId} {h : Handle} {c : Collection} (other : exclude ≠ some id)
      (entry : H.entry id = some h) (loaded : H.pool.get? h = some c) (unpinned : c.refCount = 0)
      (free : c.lock.admits .read = true) (saved : Saved h H H') :
      Unload exclude H (H'.leave id)

/-- Some instances leave the cache, one after another. -/
def Sheds (exclude : Option ObjectId) : Holdings → Holdings → Prop :=
  Relation.ReflTransGen (Unload exclude)

theorem Saved.entry_eq {h : Handle} {H H' : Holdings} (hs : Saved h H H') :
    H'.entry = H.entry := by
  cases hs with
  | clean => rfl
  | written => rfl

/-- The identity that room is made for stays as it is. -/
theorem Sheds.entry_eq {id : ObjectId} {H H' : Holdings} (hs : Sheds (some id) H H') :
    H'.entry id = H.entry id := by
  induction hs with
  | refl => rfl
  | tail _ hu ih =>
    obtain ⟨other, -, -, -, -, saved⟩ := hu
    refine Eq.trans ?_ ((congrFun saved.entry_eq id).trans ih)
    exact if_neg fun hid => other (congrArg some hid)

theorem leave_enter {H : Holdings} {id : ObjectId} (hnew : H.entry id = none) (h : Handle) :
    (H.enter id h).leave id = H := by
  have hentry : (fun k => if k = id then none else if k = id then some h else H.entry k) =
      H.entry := by
    funext k
    by_cases hk : k = id
    · rw [if_pos hk, hk, hnew]
    · rw [if_neg hk, if_neg hk]
  unfold leave enter
  rw [hentry]

end Holdings

namespace Cache

open Holdings

/-- What a cache over the store holds. -/
def holdings (c : Cache Store Record) (w : Workspace Store Record) : Holdings :=
  { entry := c.entries.get?, pool := w.pool, store := w.outside }

section Evicting
variable {c c' : Cache Store Record} {w w' : Workspace Store Record} {h : Handle} {id : ObjectId}

theorem holdings_drop (c : Cache Store Record) (id : ObjectId) (w : Workspace Store Record) :
    (c.drop id).holdings w = (c.holdings w).leave id := by
  simp only [holdings, leave, drop, Holdings.mk.injEq, and_true]
  funext k
  exact Table.get?_erase _ _ _

theorem holdings_entered (c : Cache Store Record) (id : ObjectId) (h : Handle)
    (w : Workspace Store Record) : (c.entered id h).holdings w = (c.holdings w).enter id h := by
  simp only [holdings, enter, entered, Holdings.mk.injEq, and_true]
  funext k
  exact Table.get?_insert _ _ _ _

/-! ## One collection -/

theorem flushBeforeUnload_store (i : Collection) (s : Store) :
    flushBeforeUnload (some Store.flushHook) i s = (false, i, s) ∨
      (i.dirty = false ∧ flushBeforeUnload (some Store.flushHook) i s = (true, i, s)) ∨
      ∃ s', i.dirty = true ∧ s.write i = .ok s' ∧
        flushBeforeUnload (some Store.flushHook) i s = (true, i.setDirty false, s') := by
  unfold flushBeforeUnload
  cases hdirty : i.dirty with
  | false => exact Or.inr (Or.inl ⟨rfl, rfl⟩)
  | true =>
    have hsame : s.write (i.setDirty false) = s.write i := s.write_congr rfl
    simp only [ite_true]
    cases hwrite : s.write i with
    | error e =>
      rw [Store.flushHook_of_error (hsame.trans hwrite)]
      -- the mark comes back when the write fails
      have hback : (i.setDirty false).setDirty true = i := by
        cases i
        cases hdirty
        rfl
      exact Or.inl (by simp only [hback])
    | ok s' =>
      rw [Store.flushHook_of_ok (hsame.trans hwrite)]
      exact Or.inr (Or.inr ⟨s', trivial, rfl, rfl⟩)

theorem mayUnload_store (i : Collection) (s : Store) :
    mayUnload (some Store.flushHook) i s = (false, i, s) ∨
      (i.refCount = 0 ∧ i.lock.admits .read = true ∧
        ((i.dirty = false ∧ mayUnload (some Store.flushHook) i s = (true, i, s)) ∨
          ∃ s', i.dirty = true ∧ s.write i = .ok s' ∧
            mayUnload (some Store.flushHook) i s = (true, i.setDirty false, s'))) := by
  by_cases hpin : i.refCount = 0
  · by_cases hfree : i.lock.admits .read = true
    -- the read hold for asking is taken and given back, so only the flush shows
    · have hask : mayUnload (some Store.flushHook) i s =
          (let r := flushBeforeUnload (some Store.flushHook) (i.setLock (i.lock.grant .read)) s
           (r.1, r.2.1.setLock (r.2.1.lock.releaseIfHeld .read), r.2.2)) := by
        have hacq : i.lock.tryAcquire .read = some (i.lock.grant .read) := if_pos hfree
        unfold mayUnload
        rw [if_neg (by simpa using hpin), hacq]
        simp only [Cacheable.allowUnload]
        have hcount : (i.setLock (i.lock.grant .read)).refCount = 0 := hpin
        simp only [hcount, beq_self_eq_true, Bool.and_self, ite_true]
      rcases flushBeforeUnload_store (i.setLock (i.lock.grant .read)) s with
        hflush | ⟨hdirty, hflush⟩ | ⟨s', hdirty, hwrite, hflush⟩
      · left
        rw [hask, hflush]
        rfl
      · refine Or.inr ⟨hpin, hfree, Or.inl ⟨hdirty, ?_⟩⟩
        rw [hask, hflush]
        rfl
      · refine Or.inr ⟨hpin, hfree, Or.inr ⟨s', hdirty, (s.write_congr rfl).trans hwrite, ?_⟩⟩
        rw [hask, hflush]
        rfl
    · left
      have hacq : i.lock.tryAcquire .read = none := if_neg hfree
      unfold mayUnload
      rw [if_neg (by simpa using hpin), hacq]
  · left
    unfold mayUnload
    rw [if_pos hpin]

theorem tryUnload_cases (hhook : c.flushHook = some Store.flushHook) (h : Handle)
    (w : Workspace Store Record) :
    c.tryUnload h w = (false, w) ∨
      ∃ i w', c.tryUnload h w = (true, w') ∧ w.pool.get? h = some i ∧ i.refCount = 0 ∧
        i.lock.admits .read = true ∧ Saved h (c.holdings w) (c.holdings w') := by
  unfold tryUnload
  cases hi : w.pool.get? h with
  | none => exact Or.inl rfl
  | some i =>
    have hstay : w.setPool (w.pool.set h i) = w := by rw [Pool.set_get? hi]; rfl
    rw [hhook]
    rcases mayUnload_store i w.outside with
      hmay | ⟨hpin, hfree, ⟨hdirty, hmay⟩ | ⟨s', hdirty, hwrite, hmay⟩⟩
    · left
      simp only [hmay]
      exact congrArg (Prod.mk false) hstay
    · right
      refine ⟨i, w, ?_, rfl, hpin, hfree, .clean hi hdirty⟩
      simp only [hmay]
      exact congrArg (Prod.mk true) hstay
    · right
      refine ⟨i, { w with pool := w.pool.set h (i.setDirty false), outside := s' }, ?_, rfl, hpin,
        hfree, .written hi hwrite hdirty⟩
      simp only [hmay]

/-! ## Making room -/

theorem Refused.eq (hhook : c.flushHook = some Store.flushHook) (hr : Refused c w w') :
    w' = w := by
  induction hr with
  | nobody => rfl
  | @next w₁ w₂ id h _ _ refusal ih =>
    rcases tryUnload_cases hhook h w₁ with hsame | ⟨i, w₃, hfree, -⟩
    · rw [hsame, Prod.mk.injEq] at refusal
      exact refusal.2.symm.trans ih
    · rw [hfree] at refusal
      cases refusal

theorem Finds.unload {exclude : Option ObjectId} (hhook : c.flushHook = some Store.flushHook)
    (hf : Finds c exclude w id h w') :
    Unload exclude (c.holdings w) ((c.drop id).holdings w') := by
  obtain ⟨w₀, hr, htry⟩ := hf.agreed
  obtain rfl := hr.eq hhook
  rcases tryUnload_cases hhook h w₀ with hsame | ⟨i, w₁, hfree, hi, unpinned, free, saved⟩
  · rw [hsame] at htry
    cases htry
  · rw [hfree, Prod.mk.injEq] at htry
    obtain rfl := htry.2
    rw [holdings_drop]
    exact .mk hf.other hf.entry hi unpinned free saved

theorem evict_sheds (hhook : c.flushHook = some Store.flushHook) (w : Workspace Store Record) :
    Sheds none (c.holdings w) ((c.evict w).cache.holdings (c.evict w).workspace) :=
  evictionPass_induction (P := fun c' w' => Sheds none (c.holdings w) (c'.holdings w'))
    (fun w' hr => by rw [hr.eq hhook]; exact .refl)
    fun id h w' _ hf => .single (hf.unload hhook)

theorem evictUpTo_sheds (hhook : c.flushHook = some Store.flushHook) (w : Workspace Store Record)
    (count : Nat) :
    Sheds none (c.holdings w)
      ((c.evictUpTo w count).cache.holdings (c.evictUpTo w count).workspace) :=
  (evictUpTo_induction
    (P := fun c' w' => c'.flushHook = some Store.flushHook ∧
      Sheds none (c.holdings w) (c'.holdings w'))
    (fun c' w₁ w' hP hr => ⟨hP.1, by rw [hr.eq hP.1]; exact hP.2⟩)
    (fun c' w₁ id h w' hP _ hf => ⟨hP.1, hP.2.tail (hf.unload hP.1)⟩)
    ⟨hhook, .refl⟩ count).2

theorem resize_sheds (hhook : c.flushHook = some Store.flushHook) (capacity : Nat)
    (w : Workspace Store Record) :
    Sheds none (c.holdings w)
      ((c.resize capacity w).cache.holdings (c.resize capacity w).workspace) := by
  rcases resize_cases c capacity w with
    ⟨e, hresize⟩ | ⟨b, -, hresize⟩ | ⟨_, b, -, rfl, -, hcache, hworkspace⟩
  · rw [hresize]
    exact .refl
  · rw [hresize]
    exact .refl
  · rw [hcache, hworkspace]
    exact evictUpTo_sheds hhook w _

/-- Room is made by shedding others, or the new collection goes again and nothing else changes. -/
theorem makeRoom_holdings (hhook : c.flushHook = some Store.flushHook) (id : ObjectId) (h : Handle)
    (w : Workspace Store Record) :
    ((c.makeRoom id h w).value = .ok .cached ∧
      Sheds (some id) (c.holdings w)
        ((c.makeRoom id h w).cache.holdings (c.makeRoom id h w).workspace)) ∨
    ∃ e, (c.makeRoom id h w).value = .error e ∧
      (c.makeRoom id h w).cache.holdings (c.makeRoom id h w).workspace =
        (c.holdings w).leave id := by
  rcases makeRoom_cases c id h w with
    ⟨id', h', w', -, hf, hroom | ⟨n, b, -, -, hroom⟩⟩ |
      ⟨w', hr, ⟨n, b, -, -, hroom⟩ | hroom⟩
  · have hout : Unload (some id) (c.holdings w) ((c.drop id').holdings w') := hf.unload hhook
    rw [hroom]
    exact Or.inl ⟨rfl, .single hout⟩
  · have hout : Unload (some id) (c.holdings w) ((c.drop id').holdings w') := hf.unload hhook
    rw [hroom]
    exact Or.inl ⟨rfl, .single hout⟩
  · rw [hroom, hr.eq hhook]
    exact Or.inl ⟨rfl, .refl⟩
  · rw [hroom, hr.eq hhook]
    exact Or.inr ⟨_, rfl, holdings_drop c id w⟩

theorem flushReplaced_store (i : Collection) (s : Store) :
    flushReplaced (some Store.flushHook) i s = (i, s) ∨
      ∃ s', i.dirty = true ∧ s.write i = .ok s' ∧
        flushReplaced (some Store.flushHook) i s = (i.setDirty false, s') := by
  unfold flushReplaced
  cases hdirty : i.dirty with
  | false => exact Or.inl rfl
  | true =>
    have hsame : s.write (i.setDirty false) = s.write i := s.write_congr rfl
    cases hwrite : s.write i with
    | error e =>
      have hback : (i.setDirty false).setDirty true = i := by
        cases i
        cases hdirty
        rfl
      left
      simp only [Store.flushHook_of_error (hsame.trans hwrite), hback]
    | ok s' =>
      refine Or.inr ⟨s', rfl, rfl, ?_⟩
      simp only [Store.flushHook_of_ok (hsame.trans hwrite)]

/-- The instance that is replaced may be saved first. -/
theorem replace_holdings (hhook : c.flushHook = some Store.flushHook) (id : ObjectId)
    (previous h : Handle) (w : Workspace Store Record) :
    ∃ H, (H = c.holdings w ∨ Saved previous (c.holdings w) H) ∧
      (c.replace id previous h w).cache.holdings (c.replace id previous h w).workspace =
        H.enter id h := by
  have hworkspace : (c.replace id previous h w).workspace = w ∨ ∃ i s',
      w.pool.get? previous = some i ∧ i.dirty = true ∧ w.outside.write i = .ok s' ∧
        (c.replace id previous h w).workspace =
          { w with pool := w.pool.set previous (i.setDirty false), outside := s' } := by
    unfold Cache.replace
    cases hi : w.pool.get? previous with
    | none => exact Or.inl rfl
    | some i =>
      by_cases hself : previous = h
      · exact Or.inl (if_pos hself)
      · simp only [if_neg hself, hhook]
        rcases flushReplaced_store i w.outside with hflush | ⟨s', hdirty, hwrite, hflush⟩
        · left
          rw [hflush]
          show { w with pool := w.pool.set previous i } = w
          rw [Pool.set_get? hi]
        · exact Or.inr ⟨i, s', rfl, hdirty, hwrite, by rw [hflush]⟩
  have henter := holdings_entered c id h (c.replace id previous h w).workspace
  rcases hworkspace with hsame | ⟨i, s', hi, hdirty, hwrite, hsaved⟩
  · refine ⟨c.holdings w, Or.inl rfl, ?_⟩
    rw [hsame] at henter ⊢
    exact henter
  · refine ⟨_, Or.inr (.written hi hwrite hdirty), ?_⟩
    rw [hsaved] at henter ⊢
    exact henter

/-- **What becomes of a collection that is added** to a cache in operation.  It is cached under a
new identity, and others may be shed for it; or there is no room for it and nothing else
changes; or it takes the place of another instance. -/
theorem add_holdings (hhook : c.flushHook = some Store.flushHook)
    (hop : c.operational = true) {i : Collection} (hi : w.pool.get? h = some i)
    (refCount : UInt32) :
    ∃ H, H = c.holdings (w.modify h ({ · with refCount })) ∧
      ((H.entry i.content.id = none ∧ (c.add h refCount w).value = .ok .cached ∧
          Sheds (some i.content.id) (H.enter i.content.id h)
            ((c.add h refCount w).cache.holdings (c.add h refCount w).workspace)) ∨
        (H.entry i.content.id = none ∧ (∃ e, (c.add h refCount w).value = .error e) ∧
          (c.add h refCount w).cache.holdings (c.add h refCount w).workspace = H) ∨
        ∃ previous H', H.entry i.content.id = some previous ∧
          (c.add h refCount w).value = .ok .replaced ∧ (H' = H ∨ Saved previous H H') ∧
          (c.add h refCount w).cache.holdings (c.add h refCount w).workspace =
            H'.enter i.content.id h) := by
  refine ⟨_, rfl, ?_⟩
  have hself : w.identity? h = some i.content.id := by
    rw [Workspace.identity?, hi]
    rfl
  rcases add_cases c h refCount w with ⟨hout, -⟩ | ⟨id, w', -, hid, rfl, hadd⟩
  · rw [hop, hself] at hout
    simp at hout
  · obtain rfl := Option.some.inj (hself.symm.trans hid)
    rcases hadd with ⟨previous, hold, hadd⟩ | ⟨hnew, ⟨-, hadd⟩ | ⟨-, hadd⟩⟩
    · right; right
      obtain ⟨H', hsaved, hreplaced⟩ :=
        replace_holdings hhook i.content.id previous h (w.modify h ({ · with refCount }))
      rw [hadd]
      exact ⟨previous, H', hold, rfl, hsaved, hreplaced⟩
    · left
      rw [hadd]
      refine ⟨hnew, rfl, ?_⟩
      show Sheds _ _ ((c.entered i.content.id h).holdings _)
      rw [holdings_entered]
      exact .refl
    · have hroom := makeRoom_holdings (c := c.entered i.content.id h) hhook i.content.id h
        (w.modify h ({ · with refCount }))
      rw [holdings_entered] at hroom
      rw [hadd]
      rcases hroom with ⟨hvalue, hsheds⟩ | ⟨e, hvalue, hleft⟩
      · exact Or.inl ⟨hnew, hvalue, hsheds⟩
      · refine Or.inr (Or.inl ⟨hnew, ⟨e, hvalue⟩, ?_⟩)
        rw [hleft, leave_enter hnew]

end Evicting
end Cache
end Folio
