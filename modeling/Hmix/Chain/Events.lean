import Hmix.Chain.Typed

/-!
# Events that are decoded

An event's indexed inputs are topics of its log, and the others are parameters in
its data. `decodeEvent` counts the topics by all inputs, so it comes out right where the
indexed ones are first; where they are not, it runs behind the topics, and throws. Of a
string, of bytes or of an array a topic is a hash; there it takes the hash for a length, and
throws too.
-/

namespace Hmix

open Buffer

/-- An event's inputs with their values. -/
abbrev Given := List (AbiParam × AbiValue)

/-- The indexed ones. -/
def Given.indexed (given : Given) : Given := given.filter fun g => g.1.indexed

/-- The others. -/
def Given.others (given : Given) : Given := given.filter fun g => !g.1.indexed

/-- **The topic of an indexed value**: the value, if it is of one word. Where the type has no
coder of its own, or a dynamic one, it is a hash, which is no number that JavaScript can tell. -/
inductive TopicOf (g : AbiParam × AbiValue) : Units → Prop
  | word {coder : Coder} {bytes : Bytes} (hcoder : getParamCoder g.1.type = .ok coder)
      (hword : coder.word) (hencode : coder.encode g.2 = .ok bytes) : TopicOf g (hexSlice bytes)
  | hash {bytes : Bytes} (hcoder : ∀ coder, getParamCoder g.1.type = .ok coder → coder.dynamic)
      (hlength : bytes.length = 32) (hlarge : 2 ^ 53 ≤ byteValue bytes) :
      TopicOf g (hexSlice bytes)

/-- An input that can be read where it is: its type has a coder, and one of one word if it is
indexed. -/
def AbiParam.readable (input : AbiParam) : Bool :=
  (getParamCoder input.type).toOption.any fun coder => !input.indexed || coder.word

/-- **A log of an event**: behind the event's own topic there is one for each indexed value, and
the others are in the data. -/
structure Emitted (keccak256 : String → Units) (event : AbiItem) (given : Given)
    (log : RawLog) : Prop where
  inputs : given.map Prod.fst = event.inputs
  values : ∀ g ∈ given, g.2.Indexed
  topics : ∃ topics, log.topics =
      (if event.anonymous then [] else [keccak256 event.signature]) ++ topics ∧
    List.Forall₂ TopicOf given.indexed topics
  data : (∀ g ∈ given.others, g.1.readable) → ∃ bytes,
    encodeParams (given.others.map fun g => g.1.type) (given.others.map Prod.snd) = .ok bytes ∧
      log.data = hexSlice bytes

/-- No indexed input is behind one that is not. -/
def IndexedFirst (inputs : List AbiParam) : Prop :=
  inputs.Pairwise fun input later => later.indexed → input.indexed

instance (inputs : List AbiParam) : Decidable (IndexedFirst inputs) :=
  inferInstanceAs (Decidable (inputs.Pairwise _))

/-- **Inputs of an event that is decoded**: the indexed ones come first, and each can be read. -/
def ReadableInputs (inputs : List AbiParam) : Prop :=
  IndexedFirst inputs ∧ ∀ input ∈ inputs, input.readable

instance (inputs : List AbiParam) : Decidable (ReadableInputs inputs) :=
  inferInstanceAs (Decidable (_ ∧ _))

/-- The names of the inputs are their own, and none that an event object has. -/
structure OwnNames (inputs : List AbiParam) : Prop where
  nodup : (inputs.map AbiParam.name).Nodup
  others : ∀ input ∈ inputs, input.name ∉ ["", "type", "length"]

/-- What is kept of values that have names. -/
def keptNamed (given : Given) : Option (List (String × AbiValue)) :=
  given.mapM fun g => do
    return (g.1.name, ← (← (getParamCoder g.1.type).toOption).kept g.2)

/-- **What an event object tells**: what is kept of the values, under their names, and the
event's own name. -/
def DecodedAs (event : AbiItem) (given : Given) (object : EventObject) : Prop :=
  ∃ properties, keptNamed (given.others ++ given.indexed) = some properties ∧
    object = ⟨event.inputs ≠ [], properties ++ [("type", .text (units event.name))]⟩

/-! ## Where it throws -/

/-- What is read has a coder. -/
theorem decodeNamed_coders {data : Bytes} {offset : ℕ} {inputs : List AbiParam}
    {event event' : EventObject} (h : decodeNamed data offset inputs event = .ok event') :
    ∀ input ∈ inputs, ∃ coder, getParamCoder input.type = .ok coder := by
  induction inputs generalizing offset event with
  | nil => simp
  | cons first inputs ih =>
    rw [decodeNamed] at h
    obtain ⟨coder, hcoder, h⟩ := of_bind_ok h
    obtain ⟨⟨value, consumed⟩, -, h⟩ := of_bind_ok h
    refine List.forall_mem_cons.2 ⟨⟨coder, hcoder⟩, ?_⟩
    by_cases hname : first.name = ""
    · simp only [if_pos hname, pure_bind] at h
      exact ih h
    · simp only [if_neg hname] at h
      obtain ⟨next, -, h⟩ := of_bind_ok h
      exact ih h

/-- A topic that is read is there, and its type's coder reads it. -/
theorem decodeTopics_reads {topics : List Units} {topicOffset i : ℕ} {inputs : List AbiParam}
    {event event' : EventObject} (h : decodeTopics topics topicOffset i inputs event = .ok event')
    (j : ℕ) (input : AbiParam) (hinput : inputs[j]? = some input) (hindexed : input.indexed) :
    ∃ topic bytes coder read, topics[i + j + topicOffset]? = some topic ∧
      hexStringToBuffer topic none none = .ok bytes ∧ getParamCoder input.type = .ok coder ∧
      coder.decode bytes 0 = .ok read := by
  induction inputs generalizing i j event with
  | nil => simp at hinput
  | cons first inputs ih =>
    rw [decodeTopics] at h
    obtain ⟨next, hnext, h⟩ := of_bind_ok h
    cases j with
    | zero =>
      rw [List.getElem?_cons_zero, Option.some.injEq] at hinput
      subst hinput
      rw [setIndexed, if_pos hindexed] at hnext
      obtain ⟨bytes, hbytes, hnext⟩ := of_bind_ok hnext
      obtain ⟨coder, hcoder, hnext⟩ := of_bind_ok hnext
      obtain ⟨read, hread, -⟩ := of_bind_ok hnext
      rw [readTopic] at hbytes
      cases htopic : topics[i + topicOffset]? with
      | none =>
        rw [htopic] at hbytes
        cases hbytes
      | some topic =>
        rw [htopic] at hbytes
        exact ⟨topic, bytes, coder, read, rfl, hbytes, hcoder, hread⟩
    | succ j =>
      rw [List.getElem?_cons_succ] at hinput
      obtain ⟨topic, bytes, coder, read, htopic, hrest⟩ := ih h j hinput
      refine ⟨topic, bytes, coder, read, ?_, hrest⟩
      rw [← htopic]
      congr 1
      omega

/-- A word that is no number which JavaScript can tell is no length. -/
theorem decodeLength_hash {bytes : Bytes} (hlength : bytes.length = 32)
    (hlarge : 2 ^ 53 ≤ byteValue bytes) : ∃ e, decodeLength bytes 0 = .error e := by
  have hfits : Fits ([] ++ bytes ++ []) := by
    unfold Fits
    simp only [List.nil_append, List.append_nil, hlength]
    norm_num
  have hlt : byteValue bytes < 2 ^ 256 := by
    have h := byteValue_lt bytes
    rw [hlength] at h
    exact h.trans_eq (by norm_num)
  have hdecode := decodeNumber_eq (⟨by norm_num, by norm_num⟩ : Sized 32) false hlength hfits
  rw [wrapped_nat hlt, List.nil_append, List.append_nil, List.length_nil] at hdecode
  have hnumber : (BN.ofInt (byteValue bytes)).toNumber = none := by
    rw [BN.toNumber_ofInt, if_neg (by omega)]
  rw [decodeLength, hdecode, lengthOf]
  simp only [hnumber]
  exact ⟨_, rfl⟩

/-- **A hash is not decoded**: it is taken for a length. -/
theorem decode_hash {coder : Coder} (hdynamic : coder.dynamic) {bytes : Bytes}
    (hlength : bytes.length = 32) (hlarge : 2 ^ 53 ≤ byteValue bytes) :
    ∃ e, coder.decode bytes 0 = .error e := by
  obtain ⟨e, he⟩ := decodeLength_hash hlength hlarge
  have hhelper : decodeDynamicBytesHelper bytes 0 = .error e := by
    rw [decodeDynamicBytesHelper, if_neg (by omega), he]
    rfl
  cases coder with
  | dynamicBytes => exact ⟨e, by rw [Coder.decode, hhelper]; rfl⟩
  | string => exact ⟨e, by rw [Coder.decode, hhelper]; rfl⟩
  | array coder length =>
    cases length with
    | none => exact ⟨e, by rw [Coder.decode]; simp only [he]; rfl⟩
    | some length => cases hdynamic
  | _ => cases hdynamic

/-- Of those that are indexed, the last is as far behind as there are others in front. -/
theorem exists_last {inputs : List AbiParam} (h : ∃ input ∈ inputs, input.indexed) :
    ∃ j input, inputs[j]? = some input ∧ input.indexed ∧
      (inputs.filter AbiParam.indexed).length ≤ j + 1 := by
  induction inputs with
  | nil => simp at h
  | cons first inputs ih =>
    by_cases hrest : ∃ input ∈ inputs, input.indexed
    · obtain ⟨j, input, hinput, hindexed, hcount⟩ := ih hrest
      refine ⟨j + 1, input, hinput, hindexed, ?_⟩
      rw [List.filter_cons]
      split_ifs
      · rw [List.length_cons]
        omega
      · omega
    · obtain ⟨input, hmem, hindexed⟩ := h
      rcases List.mem_cons.1 hmem with rfl | hmem
      · refine ⟨0, input, rfl, hindexed, ?_⟩
        have hnil : inputs.filter AbiParam.indexed = [] := by
          rw [List.filter_eq_nil_iff]
          exact fun later hlater hl => hrest ⟨later, hlater, hl⟩
        rw [List.filter_cons, if_pos hindexed, hnil, List.length_singleton]
      · exact absurd ⟨input, hmem, hindexed⟩ hrest

/-- Where one that is indexed is behind another, the last of them is too far behind. -/
theorem exists_beyond {inputs : List AbiParam} (h : ¬ IndexedFirst inputs) :
    ∃ j input, inputs[j]? = some input ∧ input.indexed ∧
      (inputs.filter AbiParam.indexed).length ≤ j := by
  induction inputs with
  | nil => exact absurd .nil h
  | cons first inputs ih =>
    rw [IndexedFirst, List.pairwise_cons, not_and_or] at h
    by_cases hfirst : first.indexed
    · have hrest : ¬ IndexedFirst inputs := by
        rcases h with h | h
        · exact absurd (fun _ _ _ => hfirst) h
        · exact h
      obtain ⟨j, input, hinput, hindexed, hcount⟩ := ih hrest
      refine ⟨j + 1, input, hinput, hindexed, ?_⟩
      rw [List.filter_cons, if_pos hfirst, List.length_cons]
      omega
    · have hsome : ∃ input ∈ inputs, input.indexed := by
        rcases h with h | h
        · push Not at h
          obtain ⟨later, hlater, hindexed, -⟩ := h
          exact ⟨later, hlater, hindexed⟩
        · obtain ⟨j, input, hinput, hindexed, -⟩ := ih h
          exact ⟨input, List.mem_of_getElem? hinput, hindexed⟩
      obtain ⟨j, input, hinput, hindexed, hcount⟩ := exists_last hsome
      refine ⟨j + 1, input, hinput, hindexed, ?_⟩
      rw [List.filter_cons, if_neg hfirst]
      exact hcount

/-- **A log is not decoded** where an indexed input is behind another: as many topics as
there are indexed inputs are too few. -/
theorem decodeEvent_throws {event : AbiItem} {data : Units} {topics : List Units}
    (hinputs : ¬ IndexedFirst event.inputs)
    (htopics : topics.length = (if event.anonymous then 0 else 1) +
      (event.inputs.filter AbiParam.indexed).length) :
    ∃ e, decodeEvent event data topics = .error e := by
  obtain ⟨j, input, hinput, hindexed, hcount⟩ := exists_beyond hinputs
  cases hresult : decodeEvent event data topics with
  | error e => exact ⟨e, rfl⟩
  | ok result =>
    obtain ⟨buffer, -, hresult⟩ := of_bind_ok hresult
    obtain ⟨named, -, hresult⟩ := of_bind_ok hresult
    obtain ⟨indexed, hloop, -⟩ := of_bind_ok hresult
    obtain ⟨topic, -, -, -, htopic, -⟩ := decodeTopics_reads hloop j input hinput hindexed
    obtain ⟨hbound, -⟩ := List.getElem?_eq_some_iff.1 htopic
    omega

/-! ## Where it is decoded -/

theorem set_new {event : EventObject} {name : String} (value : AbiValue)
    (hnew : name ∉ event.properties.map Prod.fst) (hlength : name ≠ "length") :
    event.set name value =
      .ok { event with properties := event.properties ++ [(name, value)] } := by
  rw [EventObject.set, if_neg (by simp [hlength]), if_neg hnew]
  rfl

/-- Names that can be set one after the other. -/
structure Settable (event : EventObject) (names : List String) : Prop where
  nodup : (event.properties.map Prod.fst ++ names).Nodup
  others : ∀ name ∈ names, name ≠ "" ∧ name ≠ "length"

/-- Names of inputs, behind those that are set. -/
theorem Settable.of_names {event : EventObject} {before names : List String}
    (hbefore : event.properties.map Prod.fst = before) (hnodup : (before ++ names).Nodup)
    (hothers : ∀ name ∈ names, name ∉ ["", "type", "length"]) : Settable event names := by
  refine ⟨hbefore ▸ hnodup, fun name hname => ?_⟩
  have := hothers name hname
  simp only [List.mem_cons, List.not_mem_nil, or_false, not_or] at this
  exact ⟨this.1, this.2.2⟩

theorem Settable.cons {event : EventObject} {name : String} {names : List String}
    (h : Settable event (name :: names)) (value : AbiValue) :
    event.set name value = .ok { event with properties := event.properties ++ [(name, value)] } ∧
      Settable { event with properties := event.properties ++ [(name, value)] } names := by
  obtain ⟨hnodup, hothers⟩ := h
  refine ⟨set_new value (fun hmem => ?_) (hothers name (by simp)).2, ?_, fun n hn =>
    hothers n (List.mem_cons_of_mem name hn)⟩
  · exact (List.nodup_append.1 hnodup).2.2 name hmem name (by simp) rfl
  · simpa using hnodup

/-- The values of the data are set by their names. -/
theorem decodeNamed_eq {data : Bytes} {offset : ℕ} {inputs : List AbiParam}
    {values : List AbiValue} {event : EventObject}
    (h : decodeLoop data offset (inputs.map AbiParam.type) = .ok values)
    (hset : Settable event (inputs.map AbiParam.name)) :
    decodeNamed data offset inputs event = .ok { event with
      properties := event.properties ++ (inputs.map AbiParam.name).zip values } := by
  induction inputs generalizing offset values event with
  | nil => simp [decodeNamed]; rfl
  | cons input inputs ih =>
    rw [List.map_cons, decodeLoop] at h
    obtain ⟨coder, hcoder, h⟩ := of_bind_ok h
    obtain ⟨⟨value, consumed⟩, hvalue, h⟩ := of_bind_ok h
    obtain ⟨rest, hrest, h⟩ := of_bind_ok h
    cases h
    rw [List.map_cons] at hset
    obtain ⟨hone, hset'⟩ := hset.cons value
    have hname : input.name ≠ "" := (hset.others input.name (by simp)).1
    simp only [decodeNamed, hcoder, ok_bind, hvalue, if_neg hname, hone]
    rw [ih hrest hset']
    simp

/-- An indexed value is read from its topic. -/
theorem setIndexed_emitted {topics : List Units} {k : ℕ} {input : AbiParam} {value v : AbiValue}
    {coder : Coder} {bytes : Bytes} (htopic : topics[k]? = some (hexSlice bytes))
    (hindexed : input.indexed) (hcoder : getParamCoder input.type = .ok coder)
    (hword : coder.word) (hwritten : Written coder value bytes v) (event : EventObject) :
    setIndexed topics k input event = event.set input.name v := by
  have hfits : Fits bytes := by
    unfold Fits
    rw [hwritten.word hword]
    norm_num
  have hread : coder.decode bytes 0 = .ok (v, bytes.length) :=
    hwritten.reads.at hfits [] [] (by simp) rfl
  simp only [setIndexed, if_pos hindexed, readTopic, htopic, hexStringToBuffer_hexSlice hfits,
    ok_bind, hcoder, hread]

/-- What can be read of a topic is a value of one word. -/
theorem TopicOf.of_readable {g : AbiParam × AbiValue} {topic : Units} (h : TopicOf g topic)
    (hindexed : g.1.indexed) (hreadable : g.1.readable) :
    ∃ coder bytes, getParamCoder g.1.type = .ok coder ∧ coder.word ∧
      coder.encode g.2 = .ok bytes ∧ topic = hexSlice bytes := by
  cases h with
  | word hcoder hword hencode => exact ⟨_, _, hcoder, hword, hencode, rfl⟩
  | hash hcoder =>
    obtain ⟨coder, hknown, hword⟩ := (Option.any_eq_true _ _).1 hreadable
    have hdynamic := hcoder coder (of_toOption hknown)
    rw [Coder.not_dynamic_of_word (by simpa [hindexed] using hword)] at hdynamic
    cases hdynamic

/-- The loop over the indexed inputs, the topics of which are from the `i`-th on. -/
theorem decodeTopics_indexed {given : Given} {front topics : List Units}
    {topicOffset i : ℕ} {event : EventObject} (hindexed : ∀ g ∈ given, g.1.indexed)
    (hreadable : ∀ g ∈ given, g.1.readable) (htopics : List.Forall₂ TopicOf given topics)
    (hfront : i + topicOffset = front.length)
    (hset : Settable event (given.map fun g => g.1.name)) (inputs : List AbiParam) :
    ∃ properties, keptNamed given = some properties ∧
      properties.map Prod.fst = given.map (fun g => g.1.name) ∧
      decodeTopics (front ++ topics) topicOffset i (given.map Prod.fst ++ inputs) event =
        decodeTopics (front ++ topics) topicOffset (i + given.length) inputs
          { event with properties := event.properties ++ properties } := by
  induction htopics generalizing front i event with
  | nil => exact ⟨[], rfl, rfl, by simp⟩
  | @cons g topic given topics hg _ ih =>
    obtain ⟨coder, bytes, hcoder, hword, hencode, rfl⟩ :=
      hg.of_readable (hindexed g (by simp)) (hreadable g (by simp))
    have hproper := (getParamCoder_iff.1 hcoder).proper
    have hstatic : ¬ coder.dynamic := by simp [Coder.not_dynamic_of_word hword]
    obtain ⟨v, hwritten⟩ := Coder.encode_written hproper (fun h => absurd h hstatic) hencode
    rw [List.map_cons] at hset
    obtain ⟨hone, hset'⟩ := hset.cons v
    have hfront' : i + 1 + topicOffset = (front ++ [hexSlice bytes]).length := by
      rw [List.length_append, List.length_singleton]
      omega
    obtain ⟨properties, hkept, hnames, hgo⟩ :=
      ih (fun g' hg' => hindexed g' (List.mem_cons_of_mem g hg'))
        (fun g' hg' => hreadable g' (List.mem_cons_of_mem g hg')) hfront' hset'
    refine ⟨(g.1.name, v) :: properties, ?_, by simp [hnames], ?_⟩
    · rw [keptNamed, List.mapM_cons, ← keptNamed, hkept]
      simp [hcoder, Except.toOption, hwritten.kept]
    · have hat : (front ++ hexSlice bytes :: topics)[i + topicOffset]? = some (hexSlice bytes) := by
        rw [hfront]
        simp
      rw [List.append_assoc, List.singleton_append] at hgo
      rw [List.map_cons, List.cons_append, decodeTopics,
        setIndexed_emitted hat (hindexed g (by simp)) hcoder hword hwritten, hone, ok_bind, hgo,
        List.length_cons]
      simp [Nat.add_assoc, Nat.add_comm 1]

/-- The others are passed over. -/
theorem decodeTopics_others {topics : List Units} {topicOffset i : ℕ} {inputs : List AbiParam}
    (hothers : ∀ input ∈ inputs, input.indexed = false) (event : EventObject) :
    decodeTopics topics topicOffset i inputs event = .ok event := by
  induction inputs generalizing i with
  | nil => rfl
  | cons input inputs ih =>
    have hinput := hothers input (by simp)
    rw [decodeTopics, setIndexed, if_neg (by simp [hinput]), pure_bind,
      ih fun other hother => hothers other (List.mem_cons_of_mem input hother)]

/-- Inputs of which the indexed ones come first. -/
theorem IndexedFirst.split {given : Given} (h : IndexedFirst (given.map Prod.fst)) :
    given = given.indexed ++ given.others := by
  induction given with
  | nil => rfl
  | cons g given ih =>
    rw [List.map_cons, IndexedFirst, List.pairwise_cons] at h
    by_cases hg : g.1.indexed
    · rw [Given.indexed, List.filter_cons, if_pos hg, List.cons_append, Given.others,
        List.filter_cons, if_neg (by simpa using hg), ← Given.others, ← Given.indexed, ← ih h.2]
    · -- behind one that is not, none is
      have hnone : ∀ g' ∈ given, ¬ g'.1.indexed :=
        fun g' hg' hi => hg (h.1 g'.1 (List.mem_map_of_mem hg') hi)
      have hindexed : (g :: given).filter (fun g => g.1.indexed) = [] := by
        rw [List.filter_eq_nil_iff, List.forall_mem_cons]
        exact ⟨hg, hnone⟩
      have hothers : (g :: given).filter (fun g => !g.1.indexed) = g :: given := by
        rw [List.filter_eq_self, List.forall_mem_cons]
        exact ⟨by simpa using hg, fun g' hg' => by simpa using hnone g' hg'⟩
      rw [Given.indexed, hindexed, Given.others, hothers, List.nil_append]

/-- What is kept of parameters, with the names. -/
theorem keptNamed_of_kept {given : Given} {kept : List AbiValue}
    (h : keptParams (given.map fun g => g.1.type) (given.map Prod.snd) = some kept) :
    keptNamed given = some ((given.map fun g => g.1.name).zip kept) ∧
      kept.length = given.length := by
  induction given generalizing kept with
  | nil =>
    cases h
    exact ⟨rfl, rfl⟩
  | cons g given ih =>
    rw [List.map_cons, List.map_cons, keptParams, List.zip_cons_cons, List.mapM_cons,
      ← keptParams] at h
    simp only [Option.bind_eq_bind, Option.bind_eq_some_iff] at h
    obtain ⟨v, ⟨coder, hcoder, hv⟩, rest, hrest, h⟩ := h
    cases h
    obtain ⟨hnamed, hlength⟩ := ih hrest
    rw [keptNamed, List.mapM_cons, ← keptNamed, hnamed]
    exact ⟨by simp [hcoder, hv], by rw [List.length_cons, List.length_cons, hlength]⟩

section

variable {keccak256 : String → Units} {event : AbiItem} {given : Given} {log : RawLog}

/-- The names of some of the inputs. -/
theorem OwnNames.notMem (hnames : OwnNames event.inputs) (h : given.map Prod.fst = event.inputs)
    {part : Given} (hpart : ∀ g ∈ part, g ∈ given) :
    ∀ name ∈ part.map (fun g => g.1.name), name ∉ ["", "type", "length"] := by
  intro name hmem
  obtain ⟨g, hg, rfl⟩ := List.mem_map.1 hmem
  exact hnames.others g.1 (h ▸ List.mem_map_of_mem (hpart g hg))

/-- **The data of a log** is read as what is kept of the others. -/
theorem Emitted.named (hnames : OwnNames event.inputs) (h : Emitted keccak256 event given log)
    (hreadable : ReadableInputs event.inputs) (sized : Bool) :
    ∃ bytes properties, hexStringToBuffer log.data none none = .ok bytes ∧
      keptNamed given.others = some properties ∧
      properties.map Prod.fst = given.others.map (fun g => g.1.name) ∧
      decodeNamed bytes 0 (given.others.map Prod.fst) ⟨sized, []⟩ = .ok ⟨sized, properties⟩ := by
  obtain ⟨bytes, hencode, hdata⟩ := h.data fun g hg =>
    hreadable.2 g.1 (h.inputs ▸ List.mem_map_of_mem (List.mem_of_mem_filter hg))
  have hvalues : ∀ v ∈ given.others.map Prod.snd, v.Indexed := by
    intro v hv
    obtain ⟨g, hg, rfl⟩ := List.mem_map.1 hv
    exact h.values g (List.mem_of_mem_filter hg)
  obtain ⟨kept, hkept, hdecoded⟩ := decodeParams_encodeParams hvalues hencode
  obtain ⟨-, -, -, -, hfits⟩ := encodeParams_layout hvalues hencode
  obtain ⟨hnamed, hlength⟩ := keptNamed_of_kept hkept
  have hsub : given.others.Sublist given := List.filter_sublist
  have hnodup : (given.others.map fun g => g.1.name).Nodup := by
    have hall := hnames.nodup
    rw [← h.inputs, List.map_map] at hall
    exact hall.sublist (hsub.map _)
  have hset : Settable ⟨sized, []⟩ ((given.others.map Prod.fst).map AbiParam.name) := by
    rw [List.map_map]
    exact .of_names rfl hnodup (hnames.notMem h.inputs fun g hg => hsub.subset hg)
  refine ⟨bytes, _, by rw [hdata, hexStringToBuffer_hexSlice hfits none], hnamed,
    List.map_fst_zip (by rw [List.length_map, hlength]), ?_⟩
  have hvalues' :
      decodeLoop bytes 0 ((given.others.map Prod.fst).map AbiParam.type) = .ok kept := by
    rw [List.map_map]
    exact hdecoded
  have hloop := decodeNamed_eq hvalues' hset
  rw [List.map_map, List.nil_append] at hloop
  exact hloop

/-- **Its topics** are read as what is kept of the indexed ones. -/
theorem Emitted.indexed (hnames : OwnNames event.inputs) (h : Emitted keccak256 event given log)
    (hreadable : ReadableInputs event.inputs) (sized : Bool) {before : List (String × AbiValue)}
    (hbefore : before.map Prod.fst = given.others.map (fun g => g.1.name)) :
    ∃ properties, keptNamed given.indexed = some properties ∧
      properties.map Prod.fst = given.indexed.map (fun g => g.1.name) ∧
      decodeTopics log.topics (if event.anonymous then 0 else 1) 0 event.inputs ⟨sized, before⟩ =
        .ok ⟨sized, before ++ properties⟩ := by
  obtain ⟨topics, htopics, hindexed⟩ := h.topics
  have hsplit : given = given.indexed ++ given.others := IndexedFirst.split (h.inputs ▸ hreadable.1)
  have hinputs : event.inputs = given.indexed.map Prod.fst ++ given.others.map Prod.fst := by
    rw [← h.inputs, ← List.map_append, ← hsplit]
  have hnodup : ((given.others.map fun g => g.1.name) ++
      (given.indexed.map fun g => g.1.name)).Nodup := by
    have hall := hnames.nodup
    rw [hinputs, List.map_append, List.map_map, List.map_map] at hall
    exact List.nodup_append_comm.1 hall
  have hall : ∀ g ∈ given.indexed, g.1.indexed := fun g hg => (List.mem_filter.1 hg).2
  have hset : Settable ⟨sized, before⟩ (given.indexed.map fun g => g.1.name) :=
    .of_names hbefore hnodup (hnames.notMem h.inputs fun g hg => List.mem_of_mem_filter hg)
  have hfront : 0 + (if event.anonymous then 0 else 1) =
      (if event.anonymous then [] else [keccak256 event.signature]).length := by
    split_ifs <;> rfl
  have hread : ∀ g ∈ given.indexed, g.1.readable := fun g hg =>
    hreadable.2 g.1 (h.inputs ▸ List.mem_map_of_mem (List.mem_of_mem_filter hg))
  obtain ⟨properties, hkept, hfst, hloop⟩ :=
    decodeTopics_indexed hall hread hindexed hfront hset (given.others.map Prod.fst)
  refine ⟨properties, hkept, hfst, ?_⟩
  rw [htopics, hinputs, hloop, decodeTopics_others]
  intro input hinput
  obtain ⟨g, hg, rfl⟩ := List.mem_map.1 hinput
  simpa using (List.mem_filter.1 hg).2

/-- **Of a log that is decoded** all inputs can be read: no hash is. -/
theorem Emitted.readable (h : Emitted keccak256 event given log) {object : EventObject}
    (hobject : decodeEvent event log.data log.topics = .ok object) :
    ReadableInputs event.inputs := by
  obtain ⟨topics, htopics, hindexed⟩ := h.topics
  have hfirst : IndexedFirst event.inputs := by
    by_contra hnot
    have hcount : log.topics.length = (if event.anonymous then 0 else 1) +
        (event.inputs.filter AbiParam.indexed).length := by
      rw [htopics, List.length_append, ← hindexed.length_eq, ← h.inputs, List.filter_map,
        List.length_map]
      split_ifs <;> rfl
    obtain ⟨e, he⟩ := @decodeEvent_throws event log.data _ hnot hcount
    rw [hobject] at he
    cases he
  refine ⟨hfirst, fun input hinput => ?_⟩
  obtain ⟨buffer, -, hobject⟩ := of_bind_ok hobject
  obtain ⟨named, hnamed, hobject⟩ := of_bind_ok hobject
  obtain ⟨indexed, hloop, -⟩ := of_bind_ok hobject
  by_cases hi : input.indexed
  · -- its topic is where it is looked for
    have hsplit : given = given.indexed ++ given.others :=
      IndexedFirst.split (h.inputs ▸ hfirst)
    obtain ⟨g, hg, rfl⟩ := List.mem_map.1 (h.inputs ▸ hinput)
    have hmem : g ∈ given.indexed := List.mem_filter.2 ⟨hg, hi⟩
    obtain ⟨j, hj⟩ := List.getElem?_of_mem hmem
    have hat : event.inputs[j]? = some g.1 := by
      rw [← h.inputs, hsplit, List.map_append, List.getElem?_append_left (by
        rw [List.length_map]; exact (List.getElem?_eq_some_iff.1 hj).1), List.getElem?_map, hj]
      rfl
    obtain ⟨topic, bytes, coder, read, htopic, hbytes, hcoder, hread⟩ :=
      decodeTopics_reads hloop j g.1 hat hi
    have hback : topics[j]? = some topic := by
      rw [htopics] at htopic
      rw [← htopic]
      split_ifs
      · simp
      · rw [List.singleton_append, Nat.zero_add, List.getElem?_cons_succ]
    have hof : TopicOf g topic := rel_of_forall₂ hindexed hj hback
    cases hof with
    | word hcoder hword => simp [AbiParam.readable, hcoder, Except.toOption, hword]
    | @hash hash hdynamic hlength hlarge =>
      have hfits : Fits hash := by
        unfold Fits
        rw [hlength]
        norm_num
      rw [hexStringToBuffer_hexSlice hfits] at hbytes
      cases hbytes
      obtain ⟨e, he⟩ := decode_hash (hdynamic coder hcoder) hlength hlarge
      rw [hread] at he
      cases he
  · obtain ⟨coder, hcoder⟩ := decodeNamed_coders hnamed input
      (List.mem_filter.2 ⟨hinput, by simpa using hi⟩)
    simp [AbiParam.readable, hcoder, Except.toOption, hi]

/-- **An event that is logged** is decoded if its inputs can be read. Otherwise it throws. -/
theorem decodeEvent_emitted (hnames : OwnNames event.inputs)
    (h : Emitted keccak256 event given log) :
    if ReadableInputs event.inputs then
      ∃ object, DecodedAs event given object ∧ decodeEvent event log.data log.topics = .ok object
    else ∃ e, decodeEvent event log.data log.topics = .error e := by
  split_ifs with hreadable
  · obtain ⟨bytes, others, hbuffer, hothers, hfstOthers, hnamed⟩ :=
      h.named hnames hreadable (event.inputs ≠ [])
    obtain ⟨indexed, hindexed, hfstIndexed, hloop⟩ :=
      h.indexed hnames hreadable (event.inputs ≠ []) hfstOthers
    have hnonIndexed : event.inputs.filter (fun input => !input.indexed) =
        given.others.map Prod.fst := by
      rw [← h.inputs, List.filter_map]
      rfl
    have hnew : "type" ∉ (others ++ indexed).map Prod.fst := by
      rw [List.map_append, hfstOthers, hfstIndexed, List.mem_append]
      rintro (hmem | hmem)
      · exact hnames.notMem h.inputs (fun g hg => List.mem_of_mem_filter hg) _ hmem (by simp)
      · exact hnames.notMem h.inputs (fun g hg => List.mem_of_mem_filter hg) _ hmem (by simp)
    refine ⟨_, ⟨others ++ indexed, ?_, rfl⟩, ?_⟩
    · rw [keptNamed, List.mapM_append, ← keptNamed, ← keptNamed, hothers, hindexed]
      rfl
    · rw [decodeEvent]
      simp only [hbuffer, ok_bind, hnonIndexed, hnamed, hloop]
      rw [set_new _ hnew (by decide)]
  · cases hobject : decodeEvent event log.data log.topics with
    | error e => exact ⟨e, rfl⟩
    | ok object => exact absurd (h.readable hobject) hreadable

/-! ## Logs and results -/

/-- An event that has its hash to itself is found by it. -/
theorem findEvent_of_mem {abi : List AbiItem} (hmem : event ∈ abi) (htype : event.type = "event")
    (hown : ∀ item ∈ abi, item.type = "event" →
      keccak256 item.signature = keccak256 event.signature → item = event) :
    findEvent keccak256 abi (keccak256 event.signature) = some event := by
  unfold findEvent
  generalize hlist : (abi.filter fun item => item.type = "event").reverse = items
  have hmemItems : ∀ item, item ∈ items ↔ item ∈ abi ∧ item.type = "event" := by
    intro item
    rw [← hlist, List.mem_reverse, List.mem_filter, decide_eq_true_eq]
  cases hfind : items.find? fun item => keccak256 item.signature = keccak256 event.signature with
  | none =>
    rw [List.find?_eq_none] at hfind
    exact absurd (decide_eq_true rfl) (hfind event ((hmemItems event).2 ⟨hmem, htype⟩))
  | some item =>
    have hitem := (hmemItems item).1 (List.mem_of_find?_eq_some hfind)
    have hsame := List.find?_some hfind
    rw [hown item hitem.1 hitem.2 (of_decide_eq_true hsame)]

/-- A log of an event of the contract. -/
structure Logged (keccak256 : String → Units) (abi : List AbiItem) (event : AbiItem)
    (given : Given) (log : RawLog) : Prop where
  mem : event ∈ abi
  type : event.type = "event"
  anonymous : event.anonymous = false
  own : ∀ item ∈ abi, item.type = "event" →
    keccak256 item.signature = keccak256 event.signature → item = event
  names : OwnNames event.inputs
  emitted : Emitted keccak256 event given log

/-- A log of the contract, as its events are decoded. -/
theorem Logged.decodeLog {abi : List AbiItem} (h : Logged keccak256 abi event given log) :
    if ReadableInputs event.inputs then
      ∃ object, DecodedAs event given object ∧ decodeLog keccak256 abi log = .ok (some object)
    else ∃ e, decodeLog keccak256 abi log = .error e := by
  obtain ⟨topics, htopics, -⟩ := h.emitted.topics
  rw [h.anonymous, if_neg (by simp), List.singleton_append] at htopics
  have hfound := findEvent_of_mem h.mem h.type h.own
  have hevent : Hmix.decodeLog keccak256 abi log =
      some <$> decodeEvent event log.data log.topics := by
    rw [Hmix.decodeLog, htopics, List.head?_cons, Option.bind_some, hfound]
    rfl
  have hdecode := decodeEvent_emitted h.names h.emitted
  rw [hevent]
  split_ifs at hdecode ⊢ with hreadable
  · obtain ⟨object, htells, hobject⟩ := hdecode
    exact ⟨object, htells, by rw [hobject]; rfl⟩
  · obtain ⟨e, he⟩ := hdecode
    exact ⟨e, by rw [he]; rfl⟩

namespace TipJar

/-- `event Tip(uint256 amount, address indexed from)`. -/
def tip : AbiItem :=
  ⟨"event", "Tip", [⟨"amount", "uint256", false⟩, ⟨"from", "address", true⟩], [], false, false⟩

/-- `event Gift(address indexed from, uint256 amount)`. -/
def gift : AbiItem :=
  ⟨"event", "Gift", [⟨"from", "address", true⟩, ⟨"amount", "uint256", false⟩], [], false, false⟩

/-- `event Named(string indexed name)`. -/
def named : AbiItem := ⟨"event", "Named", [⟨"name", "string", true⟩], [], false, false⟩

/-- `function isEmpty() view returns (bool)`. -/
def isEmpty : AbiItem := ⟨"function", "isEmpty", [], [⟨"", "bool", false⟩], true, false⟩

def abi : List AbiItem := [isEmpty, tip, gift, named]

/-- An account. -/
def sender : AbiValue := .text (units "0000000000000000000000000000000000000009")

end TipJar

end

end Hmix
