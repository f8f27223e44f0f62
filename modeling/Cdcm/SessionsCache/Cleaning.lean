import Cdcm.SessionsCache.Interleaving

/-!
# Cleaning between other processes

`clean` looks for the first element that is not expired, gives the lock away, and
then erases what stands in front of it.  In between other processes may erase that
element, or put one that is not expired in front of it.
-/

namespace Cdcm.SessionsCache

open OrderedIndex MultiIndex Machine

namespace Shared

/-- The iterator of a `clean` is the end or designates an element, and in front of it
is nothing but expired elements. -/
def Boundary (cache : SharedMemSessionsCache) (cleaning : Cleaning) : Prop :=
  Designates cache cleaning.tillNow ∧
    ∀ node ∈ upTo cache cleaning.tillNow, node.val.expirationTime < cleaning.now

/-- A new element with this expiration time is expired, or its place is behind the
element of the iterator. -/
def InsertsBehind (cache : SharedMemSessionsCache) (cleaning : Cleaning)
    (expirationTime : Int) : Prop :=
  expirationTime < cleaning.now ∨
    ∃ first ∈ cleaning.tillNow.bind fun till => cache.map.at? till.addr,
      first.val.expirationTime ≤ expirationTime

/-- A touched element keeps its place in the order of expiration times. -/
def staysInPlace (cache : SharedMemSessionsCache) (now : Int)
    (node : Node SharedMemSessionElement) : Bool :=
  inPlace (schema.key Tag.expiration)
    (before node.addr (cache.map.index Tag.expiration))
    (after node.addr (cache.map.index Tag.expiration))
    ⟨node.addr, cache.renew now node.val⟩

/-- A touched element gets in front of all other elements that are alive. -/
def PassesNone (cache : SharedMemSessionsCache) (cleaning : Cleaning) (now : Int)
    (node : Node SharedMemSessionElement) : Prop :=
  ∀ other ∈ cache.map.nodes, other.addr ≠ node.addr →
    cleaning.now ≤ other.val.expirationTime →
      now + cache.sessionIdleTimeout < other.val.expirationTime

/-- A touched element stays or comes behind an iterator that is not its own. -/
def EndsBehind (cache : SharedMemSessionsCache) (till : Node SharedMemSessionElement)
    (now : Int) (node : Node SharedMemSessionElement) : Prop :=
  if staysInPlace cache now node = true then
    node ∉ before till.addr (cache.map.index Tag.expiration)
  else ∃ first ∈ cache.map.at? till.addr,
    first.val.expirationTime ≤ now + cache.sessionIdleTimeout

/-- A touch leaves what stands in front of the iterator expired: the element of the
iterator keeps its place or passes no other element that is not expired, and another
element is expired afterwards, or stays or comes behind the iterator. -/
def RenewsBehind (cache : SharedMemSessionsCache) (cleaning : Cleaning) (now : Int)
    (node : Node SharedMemSessionElement) : Prop :=
  match cleaning.tillNow with
  | none => now + cache.sessionIdleTimeout < cleaning.now
  | some till =>
      if node.addr = till.addr then
        staysInPlace cache now node = true ∨ PassesNone cache cleaning now node
      else
        now + cache.sessionIdleTimeout < cleaning.now ∨ EndsBehind cache till now node

/-- A region spares a `clean` that is between its two: it does not erase the element
of its iterator, and what it puts in front of it is expired. -/
def Spares (uuidText : UuidText) (shared : Shared) (region : Region) : Prop :=
  ∀ cleaning ∈ shared.cleaning,
    (∀ till ∈ cleaning.tillNow, ∀ node ∈ shared.erased region, node.addr ≠ till.addr) ∧
    match region with
    | .add now allocation session => allocation = .succeeds →
        InsertsBehind shared.cache cleaning (now + shared.cache.sessionIdleTimeout) ∨
          ((shared.cache.evict session.remote).map.insert
            ⟨now + shared.cache.sessionIdleTimeout, toShared uuidText session⟩).2 = false
    | .update position now => ∀ lookup ∈ shared.lookups[position]?,
        ∀ node ∈ shared.cache.map.at? lookup.iterator,
          RenewsBehind shared.cache cleaning now node
    | _ => True

instance (cache : SharedMemSessionsCache) (cleaning : Cleaning) (expirationTime : Int) :
    Decidable (InsertsBehind cache cleaning expirationTime) :=
  inferInstanceAs (Decidable (_ ∨ ∃ first ∈ _, _))

instance (cache : SharedMemSessionsCache) (cleaning : Cleaning) (now : Int)
    (node : Node SharedMemSessionElement) : Decidable (PassesNone cache cleaning now node) :=
  inferInstanceAs (Decidable (∀ other ∈ cache.map.nodes, _ → _ → _))

instance (cache : SharedMemSessionsCache) (till : Node SharedMemSessionElement) (now : Int)
    (node : Node SharedMemSessionElement) : Decidable (EndsBehind cache till now node) :=
  inferInstanceAs (Decidable (if staysInPlace cache now node = true then
      node ∉ before till.addr (cache.map.index Tag.expiration)
    else ∃ first ∈ cache.map.at? till.addr,
      first.val.expirationTime ≤ now + cache.sessionIdleTimeout))

instance (cache : SharedMemSessionsCache) (cleaning : Cleaning) (now : Int)
    (node : Node SharedMemSessionElement) : Decidable (RenewsBehind cache cleaning now node) :=
  match cleaning with
  | ⟨_, none⟩ => inferInstanceAs (Decidable (_ < _))
  | ⟨sampled, some till⟩ => inferInstanceAs (Decidable (
      if node.addr = till.addr then
        staysInPlace cache now node = true ∨ PassesNone cache ⟨sampled, some till⟩ now node
      else now + cache.sessionIdleTimeout < sampled ∨ EndsBehind cache till now node))

instance (uuidText : UuidText) (shared : Shared) (region : Region) :
    Decidable (Spares uuidText shared region) :=
  match region with
  | .add .. => inferInstanceAs (Decidable (∀ cleaning ∈ _, _ ∧ (_ → _ ∨ _ = false)))
  | .update .. => inferInstanceAs (Decidable (∀ cleaning ∈ _, _ ∧ ∀ lookup ∈ _, ∀ node ∈ _, _))
  | .lookup .. | .removeById _ | .flushAllEntries | .tillNow _ | .eraseTill =>
      inferInstanceAs (Decidable (∀ cleaning ∈ _, _ ∧ True))

variable {uuidText : UuidText} {shared next : Shared} {cache : SharedMemSessionsCache}
  {cleaning : Cleaning}

/-! ## What keeps the boundary -/

theorem mem_expiration {node : Node SharedMemSessionElement} :
    node ∈ cache.map.index Tag.expiration ↔ node ∈ cache.map :=
  @Container.mem_index _ _ cache.map node Tag.expiration

/-- In front of the end is every element. -/
theorem mem_upTo_none {node : Node SharedMemSessionElement} :
    node ∈ upTo cache none ↔ node ∈ cache.map := mem_expiration

/-- The first half of `clean` finds the boundary. -/
theorem boundary_tillNow (now : Int) : Boundary cache ⟨now, cache.tillNow now⟩ := by
  cases found : cache.tillNow now with
  | none =>
      constructor
      · trivial
      · exact lt_of_lowerBound_eq_none _ found
  | some till =>
      have inIndex := List.mem_of_find?_eq_some found
      constructor
      · have stored := mem_expiration.mp inIndex
        exact Option.isSome_iff_exists.mpr ⟨till, Container.at?_eq_some.mpr ⟨stored, rfl⟩⟩
      · intro node inFront
        have isIn := (List.takeWhile_subset _) inFront
        exact (mem_before_lowerBound _ (cache.map.sorted Tag.expiration)
          (cache.map.nodup_index Tag.expiration) found isIn).mp inFront

/-- Erasing another element keeps the boundary. -/
theorem Boundary.erase (boundary : Boundary cache cleaning) {addr : Nat}
    (apart : ∀ till ∈ cleaning.tillNow, addr ≠ till.addr) :
    Boundary { cache with map := cache.map.erase addr } cleaning := by
  obtain ⟨designates, expired⟩ := boundary
  obtain ⟨now, tillNow⟩ := cleaning
  cases tillNow with
  | none =>
      constructor
      · trivial
      · intro node member
        exact expired node (mem_unlink.mp member).1
  | some till =>
      have otherAddr := apart till rfl
      constructor
      · obtain ⟨first, isFirst⟩ := Option.isSome_iff_exists.mp designates
        obtain ⟨stored, hasAddr⟩ := Container.at?_eq_some.mp isFirst
        apply Option.isSome_iff_exists.mpr
        refine ⟨first, Container.at?_eq_some.mpr ⟨?_, hasAddr⟩⟩
        exact Container.mem_erase.mpr ⟨stored, hasAddr ▸ otherAddr.symm⟩
      · intro node inFront
        exact expired node (mem_before_unlink otherAddr inFront)

/-- Inserting an expired element, or one behind the iterator, keeps the boundary. -/
theorem Boundary.insert (boundary : Boundary cache cleaning) {element : SharedMemSessionElement}
    (accepted : (cache.map.insert element).2 = true)
    (behind : InsertsBehind cache cleaning element.expirationTime) :
    Boundary { cache with map := (cache.map.insert element).1 } cleaning := by
  obtain ⟨designates, expired⟩ := boundary
  obtain ⟨now, tillNow⟩ := cleaning
  cases tillNow with
  | none =>
      constructor
      · trivial
      · intro node member
        rcases (Container.mem_insert accepted).mp (mem_upTo_none.mp member) with rfl | old
        · exact behind.resolve_right (by rintro ⟨_, impossible, _⟩; contradiction)
        · exact expired node (mem_upTo_none.mpr old)
  | some till =>
      obtain ⟨first, isFirst⟩ := Option.isSome_iff_exists.mp designates
      obtain ⟨stored, hasAddr⟩ := Container.at?_eq_some.mp isFirst
      constructor
      · apply Option.isSome_iff_exists.mpr
        refine ⟨first, Container.at?_eq_some.mpr ⟨?_, hasAddr⟩⟩
        exact (Container.mem_insert accepted).mpr (.inr stored)
      · intro node inFront
        have linked := Container.index_insert accepted Tag.expiration
        simp only [upTo] at inFront expired
        rw [linked, ← hasAddr] at inFront
        rw [← hasAddr] at expired
        rcases mem_before_link _ (cache.map.sorted Tag.expiration)
          (mem_expiration.mpr stored) inFront with old | ⟨rfl, below⟩
        · exact expired node old
        · apply behind.resolve_right
          rintro ⟨other, isOther, notBelow⟩
          obtain rfl := Option.some.inj (isFirst.symm.trans isOther)
          exact absurd below (not_lt.mpr notBelow)

/-- Behind a touch of the element of the iterator, what is in front of it is expired: it stays
in its place, or passes elements that are. -/
theorem expired_of_renew_till {till found node : Node SharedMemSessionElement}
    {sampled now : Int}
    (expired : ∀ node ∈ upTo cache (some till), node.val.expirationTime < sampled)
    (same : found.addr = till.addr)
    (behind : staysInPlace cache now found = true ∨ PassesNone cache ⟨sampled, some till⟩ now found)
    (inFront : node ∈ before till.addr (relocate (schema.key Tag.expiration)
      ⟨found.addr, cache.renew now found.val⟩ (cache.map.index Tag.expiration))) :
    node.val.expirationTime < sampled := by
  rw [← same] at inFront
  have place := @mem_before_relocate_self _ _ _ (schema.key Tag.expiration)
    ⟨found.addr, cache.renew now found.val⟩ node _ (cache.map.nodup_index Tag.expiration) inFront
  split at place
  next fits =>
    apply expired node
    simp only [upTo, ← same]
    exact place
  next moves =>
    obtain ⟨⟨old, otherAddr⟩, notAbove⟩ := place
    have isMoved : ¬ staysInPlace cache now found = true := moves
    have passes := behind.resolve_left isMoved
    by_contra alive
    have beyond := passes node (mem_expiration.mp old) otherAddr (not_lt.mp alive)
    exact absurd notAbove (not_le.mpr beyond)

/-- Behind a touch of another element, what is in front of the iterator is expired: the touched
one is, or it ends behind. -/
theorem expired_of_renew_other {till found first node : Node SharedMemSessionElement}
    {sampled now : Int}
    (expired : ∀ node ∈ upTo cache (some till), node.val.expirationTime < sampled)
    (stored : found ∈ cache.map) (apart : found.addr ≠ till.addr)
    (behind : now + cache.sessionIdleTimeout < sampled ∨ EndsBehind cache till now found)
    (isFirst : cache.map.at? till.addr = some first)
    (inFront : node ∈ before till.addr (relocate (schema.key Tag.expiration)
      ⟨found.addr, cache.renew now found.val⟩ (cache.map.index Tag.expiration))) :
    node.val.expirationTime < sampled := by
  obtain ⟨firstStored, firstAddr⟩ := Container.at?_eq_some.mp isFirst
  rw [← firstAddr] at inFront apart
  rcases @mem_before_relocate _ _ _ (schema.key Tag.expiration) found
    ⟨found.addr, cache.renew now found.val⟩ first node _ (cache.map.nodup_index Tag.expiration)
    (cache.map.sorted Tag.expiration) (mem_expiration.mpr stored) rfl
    (mem_expiration.mpr firstStored) apart inFront with old | ⟨rfl, place⟩
  · apply expired node
    simp only [upTo, ← firstAddr]
    exact old
  · rcases behind with late | behind
    · exact late
    · split at place
      next fits =>
        have isPlaced : staysInPlace cache now found = true := fits
        rw [EndsBehind, if_pos isPlaced] at behind
        exact absurd (firstAddr ▸ place) behind
      next moves =>
        have isMoved : ¬ staysInPlace cache now found = true := moves
        rw [EndsBehind, if_neg isMoved] at behind
        obtain ⟨other, isOther, notBelow⟩ := behind
        obtain rfl := Option.some.inj (isFirst.symm.trans isOther)
        exact absurd place (not_lt.mpr notBelow)

/-- A touch that leaves expired elements in front of the iterator keeps the boundary. -/
theorem Boundary.renew (uuidText : UuidText) (boundary : Boundary cache cleaning) {iterator : Nat}
    {found : Node SharedMemSessionElement} {now : Int}
    (isFound : cache.map.at? iterator = some found)
    (behind : RenewsBehind cache cleaning now found) :
    Boundary (cache.update uuidText now found).1 cleaning := by
  obtain ⟨designates, expired⟩ := boundary
  obtain ⟨stored, hasAddr⟩ := Container.at?_eq_some.mp isFound
  have noClash : ∀ other ∈ cache.map, other.addr ≠ found.addr →
      schema.clash (cache.renew now found.val) other.val = false := by
    intro other isOther apart
    rw [SharedMemSessionsCache.clash_renew]
    exact Container.clash_eq_false stored isOther apart.symm
  have isAt : cache.map.at? found.addr = some found := hasAddr ▸ isFound
  have relocated := Container.index_modify isAt noClash Tag.expiration
  have members : ∀ node, node ∈ (cache.update uuidText now found).1.map ↔
      node = ⟨found.addr, cache.renew now found.val⟩ ∨
        node ∈ cache.map ∧ node.addr ≠ found.addr :=
    fun node => Container.mem_modify isAt noClash
  obtain ⟨sampled, tillNow⟩ := cleaning
  cases tillNow with
  | none =>
      constructor
      · trivial
      · intro node member
        rcases (members node).mp (mem_upTo_none.mp member) with rfl | ⟨old, _⟩
        · exact behind
        · exact expired node (mem_upTo_none.mpr old)
  | some till =>
      obtain ⟨first, isFirst⟩ := Option.isSome_iff_exists.mp designates
      obtain ⟨firstStored, firstAddr⟩ := Container.at?_eq_some.mp isFirst
      simp only [RenewsBehind] at behind
      constructor
      · apply Option.isSome_iff_exists.mpr
        by_cases same : first.addr = found.addr
        · refine ⟨_, Container.at?_eq_some.mpr ⟨(members _).mpr (.inl rfl), ?_⟩⟩
          exact same.symm.trans firstAddr
        · refine ⟨first, Container.at?_eq_some.mpr ⟨?_, firstAddr⟩⟩
          exact (members first).mpr (.inr ⟨firstStored, same⟩)
      · intro node inFront
        have inFrontRelocated : node ∈ before till.addr (relocate (schema.key Tag.expiration)
            ⟨found.addr, cache.renew now found.val⟩ (cache.map.index Tag.expiration)) := by
          rw [← relocated]
          exact inFront
        split at behind
        next same => exact expired_of_renew_till expired same behind inFrontRelocated
        next apart =>
          exact expired_of_renew_other expired stored apart behind isFirst inFrontRelocated

/-! ## Runs -/

/-- The eviction in front of an insertion keeps the boundary. -/
theorem Boundary.evict (boundary : Boundary cache cleaning) {remote : ByteString}
    (apart : ∀ till ∈ cleaning.tillNow, ∀ node ∈ cache.find .remote remote,
      node.addr ≠ till.addr) : Boundary (cache.evict remote) cleaning := by
  rw [SharedMemSessionsCache.evict]
  cases found : cache.find .remote remote with
  | none => exact boundary
  | some node => exact boundary.erase fun till isTill => apart till isTill node found

/-- An eviction leaves the places behind the iterator where they are. -/
theorem InsertsBehind.evict {expirationTime : Int} {remote : ByteString}
    (behind : InsertsBehind cache cleaning expirationTime)
    (apart : ∀ till ∈ cleaning.tillNow, ∀ node ∈ cache.find .remote remote,
      node.addr ≠ till.addr) : InsertsBehind (cache.evict remote) cleaning expirationTime := by
  rcases behind with late | ⟨first, isFirst, notBelow⟩
  · exact .inl late
  · right
    obtain ⟨till, isTill, isAt⟩ := Option.bind_eq_some_iff.mp isFirst
    obtain ⟨stored, hasAddr⟩ := Container.at?_eq_some.mp isAt
    refine ⟨first, ?_, notBelow⟩
    apply Option.bind_eq_some_iff.mpr
    refine ⟨till, isTill, Container.at?_eq_some.mpr ⟨?_, hasAddr⟩⟩
    rw [SharedMemSessionsCache.evict]
    cases found : cache.find .remote remote with
    | none => exact stored
    | some node =>
        apply Container.mem_erase.mpr
        refine ⟨stored, ?_⟩
        rw [hasAddr]
        exact (apart till isTill node found).symm

theorem Boundary.add (boundary : Boundary cache cleaning) {now : Int} {allocation : Allocation}
    {session : Session} (apart : ∀ till ∈ cleaning.tillNow,
      allocation ≠ .failsAtLookup → ∀ node ∈ cache.find .remote session.remote,
        node.addr ≠ till.addr)
    (behind : allocation = .succeeds →
      InsertsBehind cache cleaning (now + cache.sessionIdleTimeout) ∨
        ((cache.evict session.remote).map.insert
          ⟨now + cache.sessionIdleTimeout, toShared uuidText session⟩).2 = false) :
    Boundary (cache.add uuidText now allocation session).1 cleaning := by
  cases allocation with
  | failsAtLookup => exact boundary
  | failsAtInsert => exact boundary.evict fun till isTill => apart till isTill (by decide)
  | succeeds =>
      have apartNode := fun till isTill => apart till isTill (by decide)
      have evicted := boundary.evict apartNode
      have inserted : (cache.add uuidText now .succeeds session).1 =
          { cache.evict session.remote with
            map := ((cache.evict session.remote).map.insert
              ⟨now + cache.sessionIdleTimeout, toShared uuidText session⟩).1 } := rfl
      rw [inserted]
      cases accepted : ((cache.evict session.remote).map.insert
          ⟨now + cache.sessionIdleTimeout, toShared uuidText session⟩).2 with
      | false =>
          rw [Container.insert_of_refused accepted]
          exact evicted
      | true =>
          have inserts := (behind rfl).resolve_right (by rw [accepted]; decide)
          exact evicted.insert accepted (inserts.evict apartNode)

/-- A region that spares the `clean` keeps its boundary. -/
theorem boundary_step {region : Region}
    (holds : ∀ cleaning ∈ shared.cleaning, Boundary shared.cache cleaning)
    (spares : Spares uuidText shared region)
    (stepped : shared.step uuidText region = some next) :
    ∀ cleaning ∈ next.cleaning, Boundary next.cache cleaning := by
  cases region with
  | add now allocation session =>
      obtain rfl := Option.some.inj stepped
      intro cleaning isCleaning
      obtain ⟨apart, behind⟩ := spares cleaning isCleaning
      apply (holds cleaning isCleaning).add _ behind
      intro till isTill notEarly node found
      apply apart till isTill node
      rw [erased, if_neg notEarly]
      exact Option.mem_toList.mpr found
  | lookup tag key =>
      rw [step] at stepped
      split at stepped <;> obtain rfl := Option.some.inj stepped <;> exact holds
  | update position now =>
      obtain ⟨lookup, found, isLookup, isFound, rfl⟩ := step_update stepped
      intro cleaning isCleaning
      have behind := (spares cleaning isCleaning).2 lookup isLookup found isFound
      exact (holds cleaning isCleaning).renew uuidText isFound behind
  | removeById ids =>
      obtain rfl := Option.some.inj stepped
      intro cleaning isCleaning
      obtain ⟨apart, _⟩ := spares cleaning isCleaning
      simp only [SharedMemSessionsCache.removeById]
      cases found : shared.cache.find .id ids with
      | none => exact holds cleaning isCleaning
      | some node =>
          apply (holds cleaning isCleaning).erase
          intro till isTill
          apply apart till isTill node
          exact Option.mem_toList.mpr found
  | flushAllEntries =>
      obtain rfl := Option.some.inj stepped
      intro cleaning isCleaning
      obtain ⟨apart, _⟩ := spares cleaning isCleaning
      obtain ⟨designates, _⟩ := holds cleaning isCleaning
      obtain ⟨now, tillNow⟩ := cleaning
      cases tillNow with
      | none => exact ⟨trivial, fun node member => absurd member List.not_mem_nil⟩
      | some till =>
          obtain ⟨first, isFirst⟩ := Option.isSome_iff_exists.mp designates
          obtain ⟨stored, hasAddr⟩ := Container.at?_eq_some.mp isFirst
          exact absurd hasAddr (apart till rfl first stored)
  | tillNow now =>
      obtain ⟨_, rfl⟩ := step_tillNow stepped
      intro cleaning isCleaning
      obtain rfl := Option.some.inj isCleaning
      exact boundary_tillNow now
  | eraseTill =>
      obtain ⟨_, _, _, rfl⟩ := step_eraseTill stepped
      intro cleaning isCleaning
      cases isCleaning

/-- Along every run whose regions spare the `clean`, its iterator is valid, and its
second region erases no element that was not expired when it looked at the clock. -/
theorem clean_spares_alive {sessionIdleTimeout : Nat} {regions : List Region}
    (run : Run (Shared.step uuidText) (Spares uuidText) (.start sessionIdleTimeout) regions
      shared) (isCleaning : shared.cleaning = some cleaning) :
    Designates shared.cache cleaning.tillNow ∧
      ∃ next, shared.step uuidText .eraseTill = some next ∧
        ∀ node ∈ shared.cache.map, cleaning.now ≤ node.val.expirationTime →
          node ∈ next.cache.map := by
  have holds := run.invariant
    (fun state => ∀ cleaning ∈ state.cleaning, Boundary state.cache cleaning)
    (fun cleaning impossible => by contradiction)
    fun state region next holds spares stepped => boundary_step holds spares stepped
  obtain ⟨designates, expired⟩ := holds cleaning isCleaning
  refine ⟨designates, { shared with
    cache := shared.cache.eraseTill cleaning.tillNow, cleaning := none }, ?_, ?_⟩
  · simp [step, isCleaning, designates]
  · intro node stored alive
    apply mem_eraseTill.mpr
    refine ⟨stored, ?_⟩
    intro other isErased same
    have inStore : other ∈ shared.cache.map := by
      apply @mem_of_erased shared .eraseTill
      rw [erased, isCleaning]
      exact isErased
    obtain rfl := Container.eq_of_addr_eq stored inStore same
    exact absurd alive (not_le.mpr (expired node isErased))

/-- While the cache is cleaned, the session at the iterator is touched and another one
is added. -/
def sparingRegions : List Region :=
  [.add 0 .succeeds (sessionFor "h" 1), .add 50 .succeeds (sessionFor "g" 2), .tillNow 80,
    .lookup .remote (text "g"), .update 0 90, .add 95 .succeeds (sessionFor "k" 3)]

theorem clean_spares_alive_touched :
    ∃ shared cleaning, Run (Shared.step .canonical) (Spares .canonical) (.start 60)
        sparingRegions shared ∧ shared.cleaning = some cleaning ∧
      Designates shared.cache cleaning.tillNow ∧
        ∃ next, shared.step .canonical .eraseTill = some next ∧
          ∀ node ∈ shared.cache.map, cleaning.now ≤ node.val.expirationTime →
            node ∈ next.cache.map := by
  obtain ⟨shared, run, found⟩ := Run.exists_of_exec
    (fun shared : Shared => shared.cleaning.isSome)
    (by decide +kernel : (exec (Shared.step .canonical) (Spares .canonical) (.start 60)
      sparingRegions).any _ = true)
  obtain ⟨cleaning, isCleaning⟩ := Option.isSome_iff_exists.mp found
  exact ⟨shared, cleaning, run, isCleaning, clean_spares_alive run isCleaning⟩

/-! ### A login while the cache is cleaned -/

/-- The only session has expired, and a new one is added between the two regions. -/
def lateLoginRegions : List Region :=
  [.add 0 .succeeds (sessionFor "h" 1), .tillNow 100,
    .add 100 .succeeds (sessionFor "g" 2)]

/-- The iterator is the end, so the second region erases the new session as well,
which expires at 160. -/
theorem lateLogin_cleaned :
    ∃ shared next, Run (Shared.step .canonical) Unguarded (.start 60) lateLoginRegions shared ∧
      shared.cleaning.map Cleaning.now = some 100 ∧
      shared.cache.map.nodes.map (fun node => node.val.expirationTime) = [60, 160] ∧
      shared.step .canonical .eraseTill = some next ∧ next.cache.map.nodes = [] := by
  obtain ⟨shared, run, checked⟩ := Run.exists_of_exec
    (fun shared : Shared => decide (shared.cleaning.map Cleaning.now = some 100 ∧
      shared.cache.map.nodes.map (fun node => node.val.expirationTime) = [60, 160] ∧
      (shared.step .canonical .eraseTill).map (fun next => next.cache.map.nodes) = some []))
    (by decide +kernel : (exec (Shared.step .canonical) Unguarded (.start 60)
      lateLoginRegions).any _ = true)
  obtain ⟨isCleaning, stored, erases⟩ := of_decide_eq_true checked
  obtain ⟨next, stepped, isEmpty⟩ := Option.map_eq_some_iff.mp erases
  exact ⟨shared, next, run, isCleaning, stored, stepped, isEmpty⟩

end Shared

end Cdcm.SessionsCache
