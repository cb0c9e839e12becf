import Hmix.Chain.Events
import Hmix.Common.Stretch
import Hmix.Model.Subscription

/-!
# Every log, once and in order

A node answers with the logs of the blocks from one to another, and names the next. Then
what a listener has heard are the logs of a stretch of the chain, and the next request is
for what comes behind. What a subscription watches is decided by whichever was
given its filter object first.
-/

namespace Hmix

variable {keccak256 : String → Units} {node : List (List LogEntry) → WaitForLogs → LogResult}
  {filters : FilterRef → LogFilter} {x : Subscribers} {s : Subscription}

/-! ## What is watched -/

/-- The filter objects that were given, and the contracts that were. -/
def Subscribers.given (x : Subscribers) : List (Option FilterRef × String) :=
  x.subscriptions.map fun s => (s.opts.filter, s.address)

/-- The contract that was first given the filter object. -/
def firstGiven (given : List (Option FilterRef × String)) (ref : FilterRef) : Option String :=
  (given.find? fun g => g.1 = some ref).map Prod.snd

/-- **What the subscription watches**: what its filter says, and where that has no addresses, the
contract that was first given it. -/
def watched (filters : FilterRef → LogFilter) (given : List (Option FilterRef × String))
    (s : Subscription) : LogFilter :=
  match s.opts.filter with
  | none => LogFilter.own ⟨none, none⟩ s.address
  | some ref => (filters ref).own ((firstGiven given ref).getD s.address)

/-- The filters, as the requests have left them. -/
def Owned (filters : FilterRef → LogFilter) (x : Subscribers) : Prop :=
  ∀ ref, x.filters ref = ((firstGiven x.given ref).map (filters ref).own).getD (filters ref)

theorem firstGiven_concat (given : List (Option FilterRef × String)) (ref : FilterRef)
    (g : Option FilterRef × String) :
    firstGiven (given ++ [g]) ref =
      (firstGiven given ref).or (if g.1 = some ref then some g.2 else none) := by
  rw [firstGiven, List.find?_append, firstGiven]
  cases given.find? fun g => decide (g.1 = some ref) with
  | some first => rfl
  | none =>
    by_cases h : g.1 = some ref <;> simp [h]

theorem firstGiven_isSome {given : List (Option FilterRef × String)} {ref : FilterRef}
    {address : String} (h : (some ref, address) ∈ given) : (firstGiven given ref).isSome := by
  rw [firstGiven, Option.isSome_map, List.find?_isSome]
  exact ⟨_, h, decide_eq_true rfl⟩

/-- **One that subscribes later changes nothing** for those that have. -/
theorem watched_concat {given : List (Option FilterRef × String)}
    (hs : (s.opts.filter, s.address) ∈ given) (g : Option FilterRef × String) :
    watched filters (given ++ [g]) s = watched filters given s := by
  unfold watched
  rcases hfilter : s.opts.filter with - | ref
  · rfl
  · rw [hfilter] at hs
    obtain ⟨first, hfirst⟩ := Option.isSome_iff_exists.1 (firstGiven_isSome hs)
    dsimp only
    rw [firstGiven_concat, hfirst, Option.some_or]

/-- **What is asked**: for the logs from the next block on, by what is watched. -/
def Subscription.next (filters : FilterRef → LogFilter) (given : List (Option FilterRef × String))
    (s : Subscription) : Subscription :=
  { s with asked := s.asked ++
    [⟨some s.nextblock, s.opts.toBlock, watched filters given s, s.opts.minconf⟩] }

/-- What a request with the filter object asks by. -/
theorem Owned.own (h : Owned filters x) (ref : FilterRef) (address : String) :
    (x.filters ref).own address = (filters ref).own ((firstGiven x.given ref).getD address) := by
  rw [h ref]
  cases firstGiven x.given ref <;> rfl

/-- **A subscription that asks again** leaves the filters as they are. -/
theorem ask_again (h : Owned filters x) (hs : (s.opts.filter, s.address) ∈ x.given) :
    s.ask x.filters = (x.filters, s.next filters x.given) := by
  unfold Subscription.ask waitLogs Subscription.next watched
  rcases hfilter : s.opts.filter with - | ref
  · simp
  · rw [hfilter] at hs
    obtain ⟨first, hfirst⟩ := Option.isSome_iff_exists.1 (firstGiven_isSome hs)
    have hsame : (x.filters ref).own s.address = x.filters ref := by
      rw [h.own, hfirst, h ref, hfirst]
      rfl
    simp only [hsame, Function.update_eq_self]
    rw [← h.own, hsame]

/-- **One that is new** asks by what its filter says, and has it say so if it is the first. -/
theorem ask_new (h : Owned filters x) :
    (s.ask x.filters).2 = s.next filters (x.given ++ [(s.opts.filter, s.address)]) ∧
      ∀ ref, (s.ask x.filters).1 ref =
        ((firstGiven (x.given ++ [(s.opts.filter, s.address)]) ref).map (filters ref).own).getD
          (filters ref) := by
  simp only [firstGiven_concat]
  unfold Subscription.ask waitLogs Subscription.next watched
  rcases hfilter : s.opts.filter with - | ref
  · refine ⟨rfl, fun ref => ?_⟩
    rw [if_neg (by simp), Option.or_none]
    exact h ref
  · have hfirst : ((firstGiven x.given ref).or (some s.address)) =
        some ((firstGiven x.given ref).getD s.address) := by
      cases firstGiven x.given ref <;> rfl
    refine ⟨?_, fun ref' => ?_⟩
    · simp only [firstGiven_concat, if_true, hfirst, Option.getD_some]
      rw [← h.own]
    · rcases eq_or_ne ref' ref with rfl | hne
      · rw [if_pos rfl, hfirst]
        exact (Function.update_self ..).trans (h.own ref' s.address)
      · rw [if_neg (by simpa using Ne.symm hne), Option.or_none]
        exact (Function.update_of_ne hne ..).trans (h ref')

/-! ## What is heard -/

variable {selects : Option (List (Option String)) → RawLog → Bool}

/-- The filter lets the entry through. What its topics select is a parameter. -/
def LogFilter.admits (selects : Option (List (Option String)) → RawLog → Bool)
    (filter : LogFilter) (entry : LogEntry) : Bool :=
  filter.addresses.all (entry.contractAddress ∈ ·) && selects filter.topics entry.log

/-- **A node that answers with a stretch of its chain**, from the block it is asked for, and
names the block behind it. Of `latest` it decides itself where that is. -/
def Contiguous (selects : Option (List (Option String)) → RawLog → Bool)
    (node : List (List LogEntry) → WaitForLogs → LogResult) : Prop :=
  ∀ chain request, request.toBlock = none → ∃ start next, start ≤ next ∧
    next ≤ max start chain.length ∧ (∀ b, request.fromBlock = some (.number b) → start = b) ∧
    node chain request =
      ⟨(stretch chain start next).flatten.filter (request.filter.admits selects), next⟩

/-- **What a subscription has heard**: the logs of a stretch, each with its event. Where what it was
answered has ended it, one of the logs behind cannot be decoded. -/
structure Heard (keccak256 : String → Units)
    (selects : Option (List (Option String)) → RawLog → Bool) (chain : List (List LogEntry))
    (filter : LogFilter) (s : Subscription) (start next : ℕ) : Prop where
  le : start ≤ next
  bound : next ≤ max start chain.length
  begins : ∀ b ≠ 0, s.opts.fromBlock = some (.number b) → start = b
  delivered : s.delivered.map Prod.fst =
    (stretch chain start next).flatten.filter (filter.admits selects)
  decoded : ∀ p ∈ s.delivered, decodeLog keccak256 s.abi p.1.log = .ok p.2
  ended : ∀ e, s.ended = some (some e) → ∃ entry ∈ (stretch chain next chain.length).flatten,
    filter.admits selects entry ∧ decodeLog keccak256 s.abi entry.log = .error e

/-- What a subscription asks for: what it watches, and in its loop, what comes next. -/
structure Asking (filter : LogFilter) (s : Subscription) : Prop where
  asked : ∀ r ∈ s.asked, r.filter = filter ∧ r.toBlock = s.opts.toBlock
  last : s.ended = none → ∃ r, s.asked.getLast? = some r ∧ r.fromBlock = some s.nextblock

/-- The next block is where the stretch ends, or it is not known where it begins. -/
def Subscription.At (s : Subscription) (next : ℕ) : Prop :=
  s.nextblock = .number next ∨ s.nextblock = .latest ∧ firstBlock s.opts.fromBlock = .latest ∧
    s.delivered = []

variable {chain : List (List LogEntry)} {filter : LogFilter} {start next : ℕ}

/-- **A block more.** -/
theorem Heard.grow (h : Heard keccak256 selects chain filter s start next)
    (block : List LogEntry) :
    Heard keccak256 selects (chain ++ [block]) filter s start next where
  le := h.le
  bound := by
    have := h.bound
    rw [List.length_append, List.length_singleton]
    omega
  begins := h.begins
  delivered := by rw [stretch_grow _ h.bound]; exact h.delivered
  decoded := h.decoded
  ended := fun e he => by
    obtain ⟨entry, hmem, hentry⟩ := h.ended e he
    obtain ⟨logs, hlogs, hin⟩ := List.mem_flatten.1 hmem
    refine ⟨entry, List.mem_flatten.2 ⟨logs, ?_, hin⟩, hentry⟩
    rw [← stretch_grow [block] (Nat.le_max_right _ _)] at hlogs
    exact mem_stretch_of_le hlogs (by simp)

/-- The entries that were decoded are those of the answer. -/
theorem decodeEntries_ok {abi : List AbiItem} {entries : List LogEntry}
    {decoded : List (LogEntry × Option EventObject)}
    (h : decodeEntries keccak256 abi entries = .ok decoded) :
    decoded.map Prod.fst = entries ∧
      ∀ p ∈ decoded, decodeLog keccak256 abi p.1.log = .ok p.2 := by
  have hall := mapM_eq_ok.1 h
  have hone {entry : LogEntry} {p : LogEntry × Option EventObject}
      (hp : (do return (entry, ← decodeLog keccak256 abi entry.log) :
        Coding (LogEntry × Option EventObject)) = .ok p) :
      p.1 = entry ∧ decodeLog keccak256 abi p.1.log = .ok p.2 := by
    obtain ⟨event, hevent, hpair⟩ := of_bind_ok hp
    cases hpair
    exact ⟨rfl, hevent⟩
  clear h
  induction hall with
  | nil => exact ⟨rfl, by simp⟩
  | cons hp _ ih =>
    obtain ⟨hentry, hevent⟩ := hone hp
    rw [List.map_cons, hentry, ih.1, List.forall_mem_cons]
    exact ⟨rfl, hevent, ih.2⟩

theorem decodeEntries_error {abi : List AbiItem} {entries : List LogEntry} {e : AbiError}
    (h : decodeEntries keccak256 abi entries = .error e) :
    ∃ entry ∈ entries, decodeLog keccak256 abi entry.log = .error e := by
  obtain ⟨entry, hentry, he⟩ := exists_of_mapM_error h
  refine ⟨entry, hentry, ?_⟩
  cases hlog : decodeLog keccak256 abi entry.log with
  | error e' =>
    rw [hlog] at he
    cases he
    rfl
  | ok event =>
    rw [hlog] at he
    cases he

theorem Heard.nothing {n : ℕ} (hdelivered : s.delivered = []) (hended : s.ended = none)
    (hbegins : ∀ b ≠ 0, s.opts.fromBlock = some (.number b) → n = b) :
    Heard keccak256 selects chain filter s n n where
  le := Nat.le_refl n
  bound := Nat.le_max_left _ _
  begins := hbegins
  delivered := by rw [hdelivered, stretch_self]; rfl
  decoded := by simp [hdelivered]
  ended := by simp [hended]

/-- **What is answered** is the stretch that comes next. -/
theorem Heard.answered (hnode : Contiguous selects node)
    (h : Heard keccak256 selects chain filter s start next) (hat : s.At next)
    (hended : s.ended = none) {request : WaitForLogs} (hto : request.toBlock = none)
    (hfilter : request.filter = filter)
    (hfrom : request.fromBlock = some s.nextblock) :
    ∃ start' next' n, Heard keccak256 selects chain filter s start' next' ∧ next' ≤ n ∧
      n ≤ max start' chain.length ∧ node chain request =
        ⟨(stretch chain next' n).flatten.filter (filter.admits selects), n⟩ := by
  obtain ⟨first, n, hle, hbound, hfirst, hanswer⟩ := hnode chain request hto
  rw [hfilter] at hanswer
  rcases hat with hnext | ⟨hnext, hlatest, hdelivered⟩
  · rw [hnext] at hfrom
    obtain rfl := hfirst next hfrom
    refine ⟨start, first, n, h, hle, ?_, hanswer⟩
    have := h.bound
    omega
  · refine ⟨first, first, n, .nothing hdelivered hended fun b hb hopts => ?_, hle, hbound, hanswer⟩
    rw [hopts, firstBlock, if_neg hb] at hlatest
    cases hlatest

/-- An answer that is decoded is heard. -/
theorem Heard.hear (h : Heard keccak256 selects chain filter s start next) {n : ℕ} (hle : next ≤ n)
    (hbound : n ≤ max start chain.length) (hended : s.ended = none)
    {decoded : List (LogEntry × Option EventObject)}
    (hdecoded : decodeEntries keccak256 s.abi
      ((stretch chain next n).flatten.filter (filter.admits selects)) = .ok decoded) :
    Heard keccak256 selects chain filter
      { s with delivered := s.delivered ++ decoded, nextblock := .number n } start n where
  le := Nat.le_trans h.le hle
  bound := hbound
  begins := h.begins
  delivered := by
    rw [List.map_append, h.delivered, (decodeEntries_ok hdecoded).1, ← List.filter_append,
      ← List.flatten_append, stretch_append h.le hle]
  decoded := fun p hp => by
    rcases List.mem_append.1 hp with hp | hp
    · exact h.decoded p hp
    · exact (decodeEntries_ok hdecoded).2 p hp
  ended := by simp [hended]

/-- One that is not ends the loop, and none of it is heard. -/
theorem Heard.stop (h : Heard keccak256 selects chain filter s start next) {n : ℕ} {e : AbiError}
    (herror : decodeEntries keccak256 s.abi
      ((stretch chain next n).flatten.filter (filter.admits selects)) = .error e) :
    Heard keccak256 selects chain filter { s with ended := some (some e) } start next where
  le := h.le
  bound := h.bound
  begins := h.begins
  delivered := h.delivered
  decoded := h.decoded
  ended := fun e' he' => by
    cases he'
    obtain ⟨entry, hentry, he⟩ := decodeEntries_error herror
    obtain ⟨hmem, hadmits⟩ := List.mem_filter.1 hentry
    obtain ⟨logs, hlogs, hin⟩ := List.mem_flatten.1 hmem
    exact ⟨entry, List.mem_flatten.2 ⟨logs, mem_stretch_length hlogs, hin⟩, hadmits, he⟩

/-! ## Runs -/

/-- **What holds of the subscriptions.** Where one asks for no last block, it has heard a stretch of
the chain. -/
structure Subscribers.Sound (keccak256 : String → Units)
    (selects : Option (List (Option String)) → RawLog → Bool) (filters : FilterRef → LogFilter)
    (x : Subscribers) : Prop where
  owned : Owned filters x
  asking : ∀ s ∈ x.subscriptions, Asking (watched filters x.given s) s
  heard : ∀ s ∈ x.subscriptions, s.opts.toBlock = none → ∃ start next,
    Heard keccak256 selects x.chain (watched filters x.given s) s start next ∧
      (s.ended = none → s.At next)

/-- It is the same subscription, further on. -/
def Subscription.Same (s' s : Subscription) : Prop := s'.opts = s.opts ∧ s'.address = s.address

theorem watched_same {s' : Subscription} (h : s'.Same s)
    (given : List (Option FilterRef × String)) :
    watched filters given s' = watched filters given s := by
  rw [watched, watched, h.1, h.2]

theorem mem_given (hs : s ∈ x.subscriptions) : (s.opts.filter, s.address) ∈ x.given :=
  List.mem_map_of_mem hs

/-- **One of the subscriptions goes on.** -/
theorem Subscribers.Sound.set (h : x.Sound keccak256 selects filters) {i : ℕ} {s' : Subscription}
    (hs : x.subscriptions[i]? = some s) (hsame : s'.Same s)
    (hasking : Asking (watched filters x.given s) s')
    (hheard : s.opts.toBlock = none → ∃ start next,
      Heard keccak256 selects x.chain (watched filters x.given s) s' start next ∧
        (s'.ended = none → s'.At next)) :
    Sound keccak256 selects filters { x with subscriptions := x.subscriptions.set i s' } := by
  have hgiven : Subscribers.given { x with subscriptions := x.subscriptions.set i s' } =
      x.given := map_set hs (by rw [hsame.1, hsame.2])
  refine ⟨fun ref => hgiven ▸ h.owned ref, fun t ht => ?_, fun t ht hopen => ?_⟩
  · rw [hgiven]
    rcases List.mem_or_eq_of_mem_set ht with ht | rfl
    · exact h.asking t ht
    · rw [watched_same hsame]
      exact hasking
  · rw [hgiven]
    rcases List.mem_or_eq_of_mem_set ht with ht | rfl
    · exact h.heard t ht hopen
    · rw [watched_same hsame]
      exact hheard (hsame.1 ▸ hopen)

/-- It asks again. -/
theorem Subscription.asking_next {given : List (Option FilterRef × String)}
    (hasked : ∀ r ∈ s.asked, r.filter = watched filters given s ∧ r.toBlock = s.opts.toBlock) :
    Asking (watched filters given s) (s.next filters given) where
  asked := by
    rw [Subscription.next, List.forall_mem_append, List.forall_mem_singleton]
    exact ⟨hasked, rfl, rfl⟩
  last := fun _ => ⟨_, List.getLast?_concat, rfl⟩

/-- What it has heard is not changed by that. -/
theorem Heard.asks (h : Heard keccak256 selects chain filter s start next)
    (given : List (Option FilterRef × String)) :
    Heard keccak256 selects chain filter (s.next filters given) start next :=
  ⟨h.le, h.bound, h.begins, h.delivered, h.decoded, h.ended⟩

/-- A subscription begins with the block it was given, unless that is 0. -/
theorem firstBlock_begins (fromBlock : Option BlockName) :
    ∃ n, (∀ b ≠ 0, fromBlock = some (.number b) → n = b) ∧
      (firstBlock fromBlock = .number n ∨ firstBlock fromBlock = .latest) := by
  rcases fromBlock with - | (n | -)
  · exact ⟨0, by simp, .inr rfl⟩
  · refine ⟨n, fun b _ hb => by cases hb; rfl, ?_⟩
    by_cases hn : n = 0
    · exact .inr (if_pos hn)
    · exact .inl (if_neg hn)
  · exact ⟨0, by simp, .inr rfl⟩

/-- **A new one** has heard nothing yet. -/
theorem Subscribers.Sound.onLog (h : x.Sound keccak256 selects filters) (address : String)
    (abi : List AbiItem) (opts : LogRequest) :
    (x.onLog address abi opts).Sound keccak256 selects filters := by
  let s₀ : Subscription := ⟨address, abi, opts, firstBlock opts.fromBlock, [], [], none⟩
  obtain ⟨hnext, howned⟩ := ask_new (s := s₀) h.owned
  have hsubscriptions : (x.onLog address abi opts).subscriptions =
      x.subscriptions ++ [s₀.next filters (x.given ++ [(opts.filter, address)])] :=
    congrArg (fun s => x.subscriptions ++ [s]) hnext
  have hgiven : (x.onLog address abi opts).given = x.given ++ [(opts.filter, address)] := by
    rw [Subscribers.given, hsubscriptions, List.map_append]
    rfl
  refine ⟨fun ref => ?_, fun s hs => ?_, fun s hs hopen => ?_⟩
  · rw [hgiven]
    exact howned ref
  all_goals
    rw [hgiven]
    rw [hsubscriptions, List.mem_append, List.mem_singleton] at hs
    rcases hs with hs | rfl
  · rw [watched_concat (mem_given hs)]
    exact h.asking s hs
  · exact Subscription.asking_next (s := s₀) (by simp [s₀])
  · rw [watched_concat (mem_given hs)]
    exact h.heard s hs hopen
  · obtain ⟨n, hbegins, hfirst⟩ := firstBlock_begins opts.fromBlock
    refine ⟨n, n, Heard.asks (s := s₀) (.nothing rfl rfl hbegins) _, fun _ => ?_⟩
    exact hfirst.imp id fun hlatest => ⟨hlatest, hlatest, rfl⟩

/-- **An answer.** -/
theorem Subscribers.Sound.answer (hnode : Contiguous selects node)
    (h : x.Sound keccak256 selects filters) {i : ℕ} (hi : x.Waiting i) :
    (x.answer keccak256 node i).Sound keccak256 selects filters := by
  obtain ⟨s, hs, hended⟩ := hi
  have hmem : s ∈ x.subscriptions := List.mem_of_getElem? hs
  have hasking := h.asking s hmem
  obtain ⟨request, hlast, hfrom⟩ := hasking.last hended
  obtain ⟨hfilter, hto⟩ := hasking.asked request (List.mem_of_getLast? hlast)
  unfold Subscribers.answer
  simp only [Option.mem_def.1 hs, hlast]
  unfold Subscribers.receive
  cases hdecode : decodeEntries keccak256 s.abi (node x.chain request).entries with
  | error e =>
    refine h.set hs ⟨rfl, rfl⟩ ⟨hasking.asked, by simp⟩ fun hopen => ?_
    obtain ⟨start, next, hheard, hat⟩ := h.heard s hmem hopen
    obtain ⟨start', next', n, hheard', -, -, hanswer⟩ :=
      hheard.answered hnode (hat hended) hended (hto.trans hopen) hfilter hfrom
    rw [hanswer] at hdecode
    exact ⟨start', next', hheard'.stop hdecode, by simp⟩
  | ok decoded =>
    let s₁ : Subscription := { s with
      delivered := s.delivered ++ decoded
      nextblock := .number (node x.chain request).nextblock }
    have hask : s₁.ask x.filters = (x.filters, s₁.next filters x.given) :=
      ask_again (s := s₁) h.owned (mem_given (s := s) hmem)
    dsimp only
    rw [hask]
    refine h.set hs ⟨rfl, rfl⟩ (Subscription.asking_next (s := s₁) hasking.asked) fun hopen => ?_
    obtain ⟨start, next, hheard, hat⟩ := h.heard s hmem hopen
    obtain ⟨start', next', n, hheard', hle, hbound, hanswer⟩ :=
      hheard.answered hnode (hat hended) hended (hto.trans hopen) hfilter hfrom
    rw [hanswer] at hdecode
    refine ⟨start', n, Heard.asks ?_ _, fun _ => .inl ?_⟩
    · simp only [s₁, hanswer]
      exact hheard'.hear hle hbound hended hdecode
    · simp only [s₁, Subscription.next, hanswer]

/-- **A request that fails.** -/
theorem Subscribers.Sound.fail (h : x.Sound keccak256 selects filters) {i : ℕ}
    (hi : x.Waiting i) : (x.fail i).Sound keccak256 selects filters := by
  obtain ⟨s, hs, -⟩ := hi
  have hmem : s ∈ x.subscriptions := List.mem_of_getElem? hs
  have hfail : x.fail i = { x with
      subscriptions := x.subscriptions.set i { s with ended := some none } } := by
    rw [Subscribers.fail, List.modify_eq_set_getElem?, Option.mem_def.1 hs]
    rfl
  rw [hfail]
  refine h.set hs ⟨rfl, rfl⟩ ⟨(h.asking s hmem).asked, by simp⟩ fun hopen => ?_
  obtain ⟨start, next, hheard, -⟩ := h.heard s hmem hopen
  exact ⟨start, next, ⟨hheard.le, hheard.bound, hheard.begins, hheard.delivered, hheard.decoded,
    by simp⟩, by simp⟩

/-- **It holds in every run**, if the node answers with stretches of its chain. -/
theorem subscribers_sound (hnode : Contiguous selects node)
    (h : (subscribers keccak256 node filters).Reachable x) :
    x.Sound keccak256 selects filters := by
  refine h.invariant ?_ ?_
  · rintro _ ⟨chain, rfl⟩
    exact ⟨fun _ => rfl, by simp, by simp⟩
  · rintro x (block | ⟨address, abi, opts⟩ | i | i) hx he
    · refine ⟨hx.owned, hx.asking, fun s hs hopen => ?_⟩
      obtain ⟨start, next, hheard, hat⟩ := hx.heard s hs hopen
      exact ⟨start, next, hheard.grow block, hat⟩
    · exact hx.onLog address abi opts
    · exact hx.answer hnode he
    · exact hx.fail he

/-- **Every log, once and in order.** In every run, whatever the subscriptions are and in whatever
order the node answers them: each asks by what it watches, its listener has been called with the
logs that this lets through of a stretch of the chain, and it goes on where the stretch ends. -/
theorem subscription_delivers (hnode : Contiguous selects node)
    (h : (subscribers keccak256 node filters).Reachable x) (hs : s ∈ x.subscriptions)
    (hopen : s.opts.toBlock = none) :
    (∀ r ∈ s.asked, r.filter = watched filters x.given s) ∧ ∃ start next,
      Heard keccak256 selects x.chain (watched filters x.given s) s start next ∧
        (s.ended = none → s.At next) := by
  have hsound := subscribers_sound hnode h
  exact ⟨fun r hr => ((hsound.asking s hs).asked r hr).1, hsound.heard s hs hopen⟩

/-- A node that answers with all it has. -/
def allThereIs (selects : Option (List (Option String)) → RawLog → Bool)
    (chain : List (List LogEntry)) (request : WaitForLogs) : LogResult :=
  let start := match request.fromBlock with
    | some (.number b) => b
    | _ => chain.length
  let next := max start chain.length
  ⟨(stretch chain start next).flatten.filter (request.filter.admits selects), next⟩

theorem contiguous_allThereIs (selects : Option (List (Option String)) → RawLog → Bool) :
    Contiguous selects (allThereIs selects) := by
  intro chain request _
  refine ⟨_, _, Nat.le_max_left _ _, Nat.le_refl _, fun b hb => ?_, rfl⟩
  rw [hb]

/-- Two contracts are watched with one filter object. Then each of them logs something. -/
def twoWithOneFilter : Subscribers :=
  (subscribers (fun _ => []) (allThereIs fun _ _ => true) fun _ => ⟨none, none⟩).run
    ⟨[], fun _ => ⟨none, none⟩, []⟩
    [.onLog "first" [] ⟨none, none, some 0, none⟩, .onLog "second" [] ⟨none, none, some 0, none⟩,
      .answer 1, .mine [⟨"first", [], []⟩, ⟨"second", [], []⟩], .answer 1]

/-- The listener of the second contract has heard the first one. -/
theorem subscription_delivers_shared : ∃ s ∈ twoWithOneFilter.subscriptions, s.address = "second" ∧
    s.delivered.map (fun p => p.1.contractAddress) = ["first"] ∧ ∃ start next,
      Heard (fun _ => []) (fun _ _ => true) twoWithOneFilter.chain ⟨some ["first"], none⟩ s start
        next := by
  have hreach : (subscribers (fun _ => []) (allThereIs fun _ _ => true)
      fun _ => ⟨none, none⟩).Reachable twoWithOneFilter :=
    .run (.start ⟨[], rfl⟩) ⟨trivial, trivial, ⟨_, rfl, rfl⟩, trivial, ⟨_, rfl, rfl⟩, trivial⟩
  have hmem : twoWithOneFilter.subscriptions[1] ∈ twoWithOneFilter.subscriptions :=
    List.getElem_mem _
  obtain ⟨-, start, next, hheard, -⟩ :=
    subscription_delivers (contiguous_allThereIs _) hreach hmem rfl
  exact ⟨_, hmem, rfl, rfl, start, next, hheard⟩

/-! ## Events -/

open TipJar

end Hmix
