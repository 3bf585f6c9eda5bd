import LlmHomeLab.Diagnostics.LineFormat

/-! # Metrics read back

The text of a snapshot as a sequence of readings, of which the last one of each metric and host
counts. An integer is read through a float.
-/

namespace LlmHomeLab

/-! ## The readings of a text -/

section

variable {V : Type} [PyFloat V]

/-- The readings of samples, unless one of them raises. -/
def readAll : List Sample → Except NumError (List (Reading V))
  | [] => .ok []
  | sample :: rest => do
    let reading ← sample.read
    let more ← readAll rest
    return reading.toList ++ more

theorem readAll_append {samples more : List Sample} {readings : List (Reading V)} :
    readAll (samples ++ more) = .ok readings ↔
      ∃ first last, readAll samples = .ok first ∧ readAll more = .ok last ∧
        readings = first ++ last := by
  induction samples generalizing readings with
  | nil => simp [readAll]
  | cons sample rest ih =>
    simp only [List.cons_append, readAll, bind, Except.bind]
    cases sample.read (V := V) with
    | error e => simp
    | ok reading =>
      simp only
      constructor
      · intro h
        cases hmore : readAll (V := V) (rest ++ more) with
        | error e =>
          rw [hmore] at h
          cases h
        | ok both =>
          rw [hmore] at h
          cases h
          rcases ih.mp hmore with ⟨first, last, hfirst, hlast, rfl⟩
          exact ⟨reading.toList ++ first, last, by simp [hfirst, pure, Except.pure], hlast,
            by simp⟩
      · rintro ⟨first, last, hfirst, hlast, rfl⟩
        cases hrest : readAll (V := V) rest with
        | error e =>
          rw [hrest] at hfirst
          cases hfirst
        | ok first' =>
          rw [hrest] at hfirst
          cases hfirst
          rw [ih.mpr ⟨first', last, hrest, hlast, rfl⟩]
          simp [pure, Except.pure]

/-- The loop over the lines sets the readings one after the other. -/
theorem parseLines_eq (lines : List (List Char)) (parsed : ParsedMetrics V) :
    parseLines parsed lines =
      (readAll (lines.filterMap sampleOf)).map (·.foldl ParsedMetrics.set parsed) := by
  induction lines generalizing parsed with
  | nil => rfl
  | cons line rest ih =>
    rw [parseLines]
    cases hs : sampleOf line with
    | none => simp [hs, ih]
    | some sample =>
      rw [List.filterMap_cons_some hs, readAll]
      simp only [bind, Except.bind]
      cases sample.read (V := V) with
      | error e => rfl
      | ok reading =>
        cases reading with
        | none =>
          simp only [ih]
          cases readAll (V := V) (rest.filterMap sampleOf) <;> simp [Except.map, pure, Except.pure]
        | some reading =>
          simp only [ih]
          cases readAll (V := V) (rest.filterMap sampleOf) <;> simp [Except.map, pure, Except.pure]

/-- The value of an integer of a host, in a reading of it. -/
def Reading.intAt (k : HostInt) (hostId : String) : Reading V → Option Int
  | .int k' hostId' n => if k' = k ∧ hostId' = hostId then some n else none
  | _ => none

def Reading.floatAt (k : HostFloat) (hostId : String) : Reading V → Option V
  | .float k' hostId' v => if k' = k ∧ hostId' = hostId then some v else none
  | _ => none

def Reading.depthOf : Reading V → Option (Option Int)
  | .queueDepth value => some value
  | _ => none

def Reading.p95Of : Reading V → Option (Option V)
  | .p95LatencyMs value => some value
  | _ => none

open Reading

omit [PyFloat V] in
/-- What is set last is what there is. -/
theorem foldl_set (readings : List (Reading V)) :
    let parsed := readings.foldl ParsedMetrics.set {}
    parsed.queueDepth = ((readings.filterMap depthOf).getLast?).getD none ∧
    parsed.p95LatencyMs = ((readings.filterMap p95Of).getLast?).getD none ∧
    (∀ k hostId, (parsed.hostInts k).get? hostId =
      (readings.filterMap (intAt k hostId)).getLast?) ∧
    ∀ k hostId, (parsed.hostFloats k).get? hostId =
      (readings.filterMap (floatAt k hostId)).getLast? := by
  induction readings using List.reverseRecOn with
  | nil => exact ⟨rfl, rfl, fun _ _ => rfl, fun _ _ => rfl⟩
  | append_singleton readings reading ih =>
    rcases ih with ⟨hdepth, hp95, hints, hfloats⟩
    simp only [List.foldl_append, List.foldl_cons, List.foldl_nil, List.filterMap_append,
      List.getLast?_append]
    cases reading with
    | queueDepth value => simp [ParsedMetrics.set, depthOf, p95Of, intAt, floatAt, hp95, hints, hfloats]
    | p95LatencyMs value =>
      simp [ParsedMetrics.set, depthOf, p95Of, intAt, floatAt, hdepth, hints, hfloats]
    | int k hostId n =>
      refine ⟨by simp [ParsedMetrics.set, depthOf, hdepth], by simp [ParsedMetrics.set, p95Of, hp95],
        ?_, by simp [ParsedMetrics.set, floatAt, hfloats]⟩
      intro k' hostId'
      by_cases hk : k' = k
      · subst hk
        by_cases hid : hostId' = hostId
        · subst hid
          simp [ParsedMetrics.set, intAt]
        · simp [ParsedMetrics.set, intAt, Dict.get?_set, hid, Ne.symm hid, hints]
      · simp [ParsedMetrics.set, intAt, hk, Ne.symm hk, hints]
    | float k hostId v =>
      refine ⟨by simp [ParsedMetrics.set, depthOf, hdepth], by simp [ParsedMetrics.set, p95Of, hp95],
        by simp [ParsedMetrics.set, intAt, hints], ?_⟩
      intro k' hostId'
      by_cases hk : k' = k
      · subst hk
        by_cases hid : hostId' = hostId
        · subst hid
          simp [ParsedMetrics.set, floatAt]
        · simp [ParsedMetrics.set, floatAt, Dict.get?_set, hid, Ne.symm hid, hfloats]
      · simp [ParsedMetrics.set, floatAt, hk, Ne.symm hk, hfloats]

theorem asInt_digits (hV : PyFloat.Lawful V) (n : Int) :
    asInt V (PyFloat.digits n) =
      (Rounding.toDouble n).elim (.error .overflowError) fun m => .ok (some m) := by
  rcases hV.ofText_digits n with ⟨v, hv, hint⟩
  unfold asInt
  rw [hv]
  simp only [hint]
  cases Rounding.toDouble n <;> rfl

theorem asFloat_repr (hV : PyFloat.Lawful V) (v : V) :
    asFloat (PyFloat.repr v) = if PyFloat.isNan v = true then none else some v := by
  cases hnan : PyFloat.isNan v with
  | false => simp [asFloat, hV.ofText_repr v hnan, hnan]
  | true =>
    rcases hV.ofText_nan v hnan with ⟨w, hw, hwnan⟩
    simp [asFloat, hw, hwnan]

variable (snapshot : SliSnapshot V)

/-- What is read of one metric. -/
def familyReadings : HostMetric → List (Reading V)
  | .int k => (snapshot.hostInts k).entries.filterMap fun kv =>
      (Rounding.toDouble kv.2).map (.int k kv.1)
  | .float k => (snapshot.hostFloats k).entries.filterMap fun kv =>
      if PyFloat.isNan kv.2 = true then none else some (.float k kv.1 kv.2)

/-- No integer of the metric overflows. -/
def Finite : HostMetric → Prop
  | .int k => ∀ kv ∈ (snapshot.hostInts k).entries, (Rounding.toDouble kv.2).isSome = true
  | .float _ => True

variable {snapshot} {readings : List (Reading V)}

/-- Samples of which it is known whether they can be read, and as what. -/
theorem readAll_map {α : Type} {sample : α → Sample} {readable : α → Bool}
    {reading : α → Option (Reading V)}
    (hread : ∀ x, (sample x).read =
      if readable x = true then .ok (reading x) else .error .overflowError) (l : List α) :
    readAll (l.map sample) = .ok readings ↔
      (∀ x ∈ l, readable x = true) ∧ readings = l.filterMap reading := by
  induction l generalizing readings with
  | nil =>
    constructor
    · intro h
      cases h
      exact ⟨by simp, rfl⟩
    · rintro ⟨_, rfl⟩
      rfl
  | cons x rest ih =>
    have hcons : (x :: rest).filterMap reading = (reading x).toList ++ rest.filterMap reading := by
      cases hx : reading x with
      | none => simp [List.filterMap_cons_none hx]
      | some y => simp [List.filterMap_cons_some hx]
    rw [List.map_cons, readAll, hread, List.forall_mem_cons, hcons]
    constructor
    · intro h
      obtain ⟨first, hfirst, h⟩ := Json.except_bind_ok h
      obtain ⟨more, hmore, h⟩ := Json.except_bind_ok h
      obtain ⟨hall, rfl⟩ := ih.mp hmore
      split at hfirst
      · next hx =>
        cases hfirst
        cases h
        exact ⟨⟨hx, hall⟩, rfl⟩
      · cases hfirst
    · rintro ⟨⟨hx, hall⟩, rfl⟩
      rw [if_pos hx, ih.mpr ⟨hall, rfl⟩]
      rfl

theorem readAll_family (hV : PyFloat.Lawful V) (metric : HostMetric) :
    readAll (familySamples snapshot metric) = .ok readings ↔
      Finite snapshot metric ∧ readings = familyReadings snapshot metric := by
  cases metric with
  | int k =>
    refine readAll_map (fun kv => ?_) (snapshot.hostInts k).entries
    simp only [Sample.read, asInt_digits hV]
    cases Rounding.toDouble kv.2 <;> rfl
  | float k =>
    have hread : ∀ kv : String × V, (Sample.host (.float k) kv.1 (PyFloat.repr kv.2)).read =
        if true = true then
          .ok (if PyFloat.isNan kv.2 = true then none else some (.float k kv.1 kv.2))
        else .error .overflowError := by
      intro kv
      rw [Sample.read, asFloat_repr hV]
      cases PyFloat.isNan kv.2 <;> rfl
    rw [familySamples, readAll_map hread]
    simp only [implies_true, Finite, familyReadings]

theorem readAll_families (hV : PyFloat.Lawful V) (metrics : List HostMetric) :
    readAll (metrics.flatMap (familySamples snapshot)) = .ok readings ↔
      (∀ metric ∈ metrics, Finite snapshot metric) ∧
        readings = metrics.flatMap (familyReadings snapshot) := by
  induction metrics generalizing readings with
  | nil =>
    constructor
    · intro h
      cases h
      exact ⟨by simp, rfl⟩
    · rintro ⟨_, rfl⟩
      rfl
  | cons metric rest ih =>
    rw [List.flatMap_cons, readAll_append, List.forall_mem_cons, List.flatMap_cons]
    constructor
    · rintro ⟨first, last, hfirst, hlast, rfl⟩
      rcases (readAll_family hV metric).mp hfirst with ⟨hfinite, rfl⟩
      rcases ih.mp hlast with ⟨hall, rfl⟩
      exact ⟨⟨hfinite, hall⟩, rfl⟩
    · rintro ⟨⟨hfinite, hall⟩, rfl⟩
      exact ⟨_, _, (readAll_family hV metric).mpr ⟨hfinite, rfl⟩, ih.mpr ⟨hall, rfl⟩, rfl⟩

/-- The metrics of a host, in the order of the text. -/
def hostMetrics : List HostMetric := hostCompletionMetrics ++ [.int .tokenUsageTotal]

theorem mem_hostMetrics (metric : HostMetric) : metric ∈ hostMetrics := by
  rcases metric with k | k <;> cases k <;> decide

theorem filterMap_intAt (k : HostInt) (hostId : String) :
    (hostMetrics.flatMap (familyReadings snapshot)).filterMap (intAt k hostId) =
      (((snapshot.hostInts k).get? hostId).bind Rounding.toDouble).toList := by
  have hint : ∀ k', (familyReadings snapshot (.int k')).filterMap (intAt k hostId) =
      if k' = k then (((snapshot.hostInts k).get? hostId).bind Rounding.toDouble).toList
      else [] := by
    intro k'
    rw [familyReadings, List.filterMap_filterMap]
    split
    · next heq =>
      subst heq
      rw [← Dict.filterMap_key]
      refine List.filterMap_congr fun kv _ => ?_
      cases Rounding.toDouble kv.2 <;> simp [intAt]
    · next hne =>
      refine List.filterMap_eq_nil_iff.mpr fun kv _ => ?_
      cases Rounding.toDouble kv.2 <;> simp [intAt, hne]
  have hfloat : ∀ k', (familyReadings snapshot (.float k')).filterMap (intAt k hostId) = [] := by
    intro k'
    rw [familyReadings, List.filterMap_filterMap]
    refine List.filterMap_eq_nil_iff.mpr fun kv _ => ?_
    cases PyFloat.isNan kv.2 <;> simp [intAt]
  rw [List.filterMap_flatMap]
  cases k <;> simp [hostMetrics, hostCompletionMetrics, hint, hfloat]

theorem filterMap_floatAt (k : HostFloat) (hostId : String) :
    (hostMetrics.flatMap (familyReadings snapshot)).filterMap (floatAt k hostId) =
      (((snapshot.hostFloats k).get? hostId).bind fun v =>
        if PyFloat.isNan v = true then none else some v).toList := by
  have hfloat : ∀ k', (familyReadings snapshot (.float k')).filterMap (floatAt k hostId) =
      if k' = k then (((snapshot.hostFloats k).get? hostId).bind fun v =>
        if PyFloat.isNan v = true then none else some v).toList
      else [] := by
    intro k'
    rw [familyReadings, List.filterMap_filterMap]
    split
    · next heq =>
      subst heq
      rw [← Dict.filterMap_key]
      refine List.filterMap_congr fun kv _ => ?_
      cases PyFloat.isNan kv.2 <;> simp [floatAt]
    · next hne =>
      refine List.filterMap_eq_nil_iff.mpr fun kv _ => ?_
      cases PyFloat.isNan kv.2 <;> simp [floatAt, hne]
  have hint : ∀ k', (familyReadings snapshot (.int k')).filterMap (floatAt k hostId) = [] := by
    intro k'
    rw [familyReadings, List.filterMap_filterMap]
    refine List.filterMap_eq_nil_iff.mpr fun kv _ => ?_
    cases Rounding.toDouble kv.2 <;> simp [floatAt]
  rw [List.filterMap_flatMap]
  cases k <;> simp [hostMetrics, hostCompletionMetrics, hint, hfloat]

/-- The other readings of the families. -/
theorem filterMap_values (snapshot : SliSnapshot V) :
    (hostMetrics.flatMap (familyReadings snapshot)).filterMap depthOf = [] ∧
      (hostMetrics.flatMap (familyReadings snapshot)).filterMap p95Of = [] := by
  have hint : ∀ reading ∈ hostMetrics.flatMap (familyReadings snapshot),
      depthOf reading = none ∧ p95Of reading = none := by
    intro reading hreading
    rcases List.mem_flatMap.mp hreading with ⟨metric, _, hmem⟩
    cases metric with
    | int k =>
      rcases List.mem_filterMap.mp hmem with ⟨kv, _, hsome⟩
      rcases Option.map_eq_some_iff.mp hsome with ⟨m, _, rfl⟩
      exact ⟨rfl, rfl⟩
    | float k =>
      rcases List.mem_filterMap.mp hmem with ⟨kv, _, hsome⟩
      rw [Option.ite_none_left_eq_some] at hsome
      rcases hsome with ⟨_, hsome⟩
      cases hsome
      exact ⟨rfl, rfl⟩
  exact ⟨List.filterMap_eq_nil_iff.mpr fun r hr => (hint r hr).1,
    List.filterMap_eq_nil_iff.mpr fun r hr => (hint r hr).2⟩

end

/-! ## The round trip -/

section

variable {V : Type} [PyFloat V]

open Reading Rounding

/-- Everything of the snapshot that is read is there, and nothing else. -/
structure ParsedMetrics.Recovers (parsed : ParsedMetrics V) (snapshot : SliSnapshot V) : Prop where
  queueDepth : parsed.queueDepth = some snapshot.queueDepth
  p95LatencyMs : parsed.p95LatencyMs = some snapshot.p95LatencyMs
  hostInts : ∀ k hostId, (parsed.hostInts k).get? hostId = (snapshot.hostInts k).get? hostId
  hostFloats : ∀ k hostId, (parsed.hostFloats k).get? hostId = (snapshot.hostFloats k).get? hostId

/-- Readings that the true ones come after. The p95 latency stands before the saturation lines. -/
structure Harmless (snapshot : SliSnapshot V) (readings : List (Reading V)) : Prop where
  p95LatencyMs : ∀ value, (readings.filterMap p95Of).getLast? = some value →
    value = some snapshot.p95LatencyMs
  hostInts : ∀ k hostId n, .int k hostId n ∈ readings →
    (snapshot.hostInts k).contains hostId = true
  hostFloats : ∀ k hostId v, .float k hostId v ∈ readings →
    (snapshot.hostFloats k).contains hostId = true

/-- When the text of a snapshot is read back. -/
structure RoundTrips (snapshot : SliSnapshot V) : Prop where
  hostIds : ReadableIds snapshot
  queueDepth : IsDouble snapshot.queueDepth
  hostInts : ∀ k hostId n, (snapshot.hostInts k).get? hostId = some n → IsDouble n
  p95LatencyMs : PyFloat.isNan snapshot.p95LatencyMs = false
  hostFloats : ∀ k hostId v, (snapshot.hostFloats k).get? hostId = some v →
    PyFloat.isNan v = false
  strays : ∃ readings, readAll (strays snapshot) = .ok readings ∧ Harmless snapshot readings

variable {snapshot : SliSnapshot V}

/-- The readings of the text, around those that the saturation lines add. -/
theorem readAll_lines (hV : PyFloat.Lawful V) (hids : ReadableIds snapshot)
    {lines : List (List Char)} (hlines : snapshot.lines = .ok lines)
    {readings : List (Reading V)} :
    readAll (samplesOf lines) = .ok readings ↔
      ∃ strayReadings depth, readAll (strays snapshot) = .ok strayReadings ∧
        toDouble snapshot.queueDepth = some depth ∧ (∀ metric, Finite snapshot metric) ∧
        readings = .p95LatencyMs (asFloat (PyFloat.repr snapshot.p95LatencyMs)) :: strayReadings ++
          .queueDepth (some depth) :: hostMetrics.flatMap (familyReadings snapshot) := by
  have hp95 : ∀ {more : List Sample} {all : List (Reading V)},
      readAll (.p95LatencyMs (PyFloat.repr snapshot.p95LatencyMs) :: more) = .ok all ↔
        ∃ rest, readAll more = .ok rest ∧
          all = .p95LatencyMs (asFloat (PyFloat.repr snapshot.p95LatencyMs)) :: rest := by
    intro more all
    rw [readAll, Sample.read]
    cases readAll (V := V) more with
    | error e => simp [bind, Except.bind]
    | ok rest =>
      constructor
      · intro h
        cases h
        exact ⟨rest, rfl, rfl⟩
      · rintro ⟨_, hrest, rfl⟩
        cases hrest
        rfl
  have hdepth : ∀ {more : List Sample} {all : List (Reading V)},
      readAll (.queueDepth (PyFloat.digits snapshot.queueDepth) :: more) = .ok all ↔
        ∃ depth rest, toDouble snapshot.queueDepth = some depth ∧ readAll more = .ok rest ∧
          all = .queueDepth (some depth) :: rest := by
    intro more all
    rw [readAll, Sample.read, asInt_digits hV]
    cases hdouble : toDouble snapshot.queueDepth with
    | none => simp [bind, Except.bind]
    | some depth =>
      cases readAll (V := V) more with
      | error e => simp [bind, Except.bind, pure, Except.pure]
      | ok rest =>
        constructor
        · intro h
          cases h
          exact ⟨depth, rest, rfl, rfl, rfl⟩
        · rintro ⟨_, _, hsome, hrest, rfl⟩
          cases hsome
          cases hrest
          rfl
  rw [samplesOf_lines hV hids hlines, List.cons_append, hp95]
  constructor
  · rintro ⟨rest, hrest, rfl⟩
    rcases readAll_append.mp hrest with ⟨strayReadings, last, hstrays, hlast, rfl⟩
    rcases hdepth.mp hlast with ⟨depth, families, hdouble, hfamilies, rfl⟩
    rcases (readAll_families hV hostMetrics).mp hfamilies with ⟨hfinite, rfl⟩
    exact ⟨strayReadings, depth, hstrays, hdouble, fun m => hfinite m (mem_hostMetrics m), rfl⟩
  · rintro ⟨strayReadings, depth, hstrays, hdouble, hfinite, rfl⟩
    refine ⟨_, readAll_append.mpr ⟨strayReadings, _, hstrays, hdepth.mpr ⟨depth, _, hdouble,
      (readAll_families hV hostMetrics).mpr ⟨fun m _ => hfinite m, rfl⟩, rfl⟩, rfl⟩, rfl⟩

/-- A reading is that of a sample. -/
theorem mem_readAll {samples : List Sample} {readings : List (Reading V)} {reading : Reading V}
    (h : readAll samples = .ok readings) (hmem : reading ∈ readings) :
    ∃ sample ∈ samples, sample.read = .ok (some reading) := by
  induction samples generalizing readings with
  | nil =>
    cases h
    cases hmem
  | cons sample rest ih =>
    rcases Json.except_bind_ok h with ⟨first, hfirst, h⟩
    rcases Json.except_bind_ok h with ⟨more, hmore, h⟩
    cases h
    rcases List.mem_append.mp hmem with hmem | hmem
    · rw [Option.mem_toList] at hmem
      cases hmem
      exact ⟨sample, List.mem_cons_self .., hfirst⟩
    · rcases ih hmore hmem with ⟨sample', hsample', hread⟩
      exact ⟨sample', List.mem_cons_of_mem _ hsample', hread⟩

/-- A reading of a host comes from a sample of it. -/
theorem sample_of_read {sample : Sample} {k : HostInt} {hostId : String} {n : Int}
    (h : sample.read (V := V) = .ok (some (.int k hostId n))) :
    ∃ text, sample = .host (.int k) hostId text := by
  rcases sample with text | text | ⟨k' | k', hostId', text⟩
  · rcases Json.except_bind_ok h with ⟨value, _, hpure⟩
    cases hpure
  · cases h
  · rcases Json.except_bind_ok h with ⟨value, _, hpure⟩
    rcases Option.map_eq_some_iff.mp (Except.ok.inj hpure) with ⟨m, _, heq⟩
    cases heq
    exact ⟨text, rfl⟩
  · rcases Option.map_eq_some_iff.mp (Except.ok.inj h) with ⟨m, _, heq⟩
    cases heq

theorem isNan_of_asFloat {text : List Char} {v : V} (h : asFloat text = some v) :
    PyFloat.isNan v = false := by
  unfold asFloat at h
  split at h
  · cases h
  · rw [Option.ite_none_left_eq_some] at h
    rcases h with ⟨hnan, heq⟩
    cases heq
    exact Bool.eq_false_of_not_eq_true hnan

/-- No float that is read is a NaN. -/
theorem isNan_of_read {sample : Sample} {reading : Reading V} {v : V}
    (h : sample.read = .ok (some reading))
    (hv : reading = .p95LatencyMs (some v) ∨ ∃ k hostId, reading = .float k hostId v) :
    PyFloat.isNan v = false := by
  rcases sample with text | text | ⟨k' | k', hostId', text⟩
  · rcases Json.except_bind_ok h with ⟨value, _, hpure⟩
    cases hpure
    rcases hv with hv | ⟨_, _, hv⟩ <;> cases hv
  · cases h
    rcases hv with hv | ⟨_, _, hv⟩
    · exact isNan_of_asFloat (Reading.p95LatencyMs.inj hv)
    · cases hv
  · rcases Json.except_bind_ok h with ⟨value, _, hpure⟩
    rcases Option.map_eq_some_iff.mp (Except.ok.inj hpure) with ⟨m, _, heq⟩
    cases heq
    rcases hv with hv | ⟨_, _, hv⟩ <;> cases hv
  · rcases Option.map_eq_some_iff.mp (Except.ok.inj h) with ⟨w, hw, heq⟩
    cases heq
    rcases hv with hv | ⟨_, _, hv⟩
    · cases hv
    · cases hv
      exact isNan_of_asFloat hw

theorem getLast?_append_toList {α : Type*} (l : List α) (o : Option α) :
    (l ++ o.toList).getLast? = o.or l.getLast? := by
  cases o <;> simp

/-- What is read, from the readings. -/
theorem foldl_readings (snapshot : SliSnapshot V) {strayReadings readings : List (Reading V)}
    {depth : Int} (h : readings = .p95LatencyMs (asFloat (PyFloat.repr snapshot.p95LatencyMs)) ::
      strayReadings ++ .queueDepth (some depth) ::
        hostMetrics.flatMap (familyReadings snapshot)) :
    (readings.foldl ParsedMetrics.set {}).queueDepth = some depth ∧
    (readings.foldl ParsedMetrics.set {}).p95LatencyMs =
      ((strayReadings.filterMap p95Of).getLast?).getD
        (asFloat (PyFloat.repr snapshot.p95LatencyMs)) ∧
    (∀ k hostId, ((readings.foldl ParsedMetrics.set {}).hostInts k).get? hostId =
      (((snapshot.hostInts k).get? hostId).bind toDouble).or
        (strayReadings.filterMap (intAt k hostId)).getLast?) ∧
    ∀ k hostId, ((readings.foldl ParsedMetrics.set {}).hostFloats k).get? hostId =
      (((snapshot.hostFloats k).get? hostId).bind fun v =>
        if PyFloat.isNan v = true then none else some v).or
          (strayReadings.filterMap (floatAt k hostId)).getLast? := by
  rcases foldl_set readings with ⟨hdepth, hp95, hints, hfloats⟩
  rcases filterMap_values snapshot with ⟨hnoDepth, hnoP95⟩
  have hdepthOf : depthOf (.queueDepth (some depth) : Reading V) = some (some depth) := rfl
  have hp95Of : ∀ value : Option V, p95Of (.p95LatencyMs value) = some value := fun _ => rfl
  refine ⟨?_, ?_, ?_, ?_⟩
  · rw [hdepth, h, List.cons_append, List.filterMap_cons_none rfl, List.filterMap_append,
      List.filterMap_cons_some hdepthOf, hnoDepth]
    simp
  · rw [hp95, h, List.cons_append, List.filterMap_cons_some (hp95Of _), List.filterMap_append,
      List.filterMap_cons_none rfl, hnoP95, List.append_nil, List.getLast?_cons]
    rfl
  · intro k hostId
    rw [hints, h, List.cons_append, List.filterMap_cons_none rfl, List.filterMap_append,
      List.filterMap_cons_none rfl, filterMap_intAt, getLast?_append_toList]
  · intro k hostId
    rw [hfloats, h, List.cons_append, List.filterMap_cons_none rfl, List.filterMap_append,
      List.filterMap_cons_none rfl, filterMap_floatAt, getLast?_append_toList]

theorem parse_render {lines : List (List Char)} :
    parseMetricsText (V := V) (lines.flatMap (· ++ ['\n'])) =
      (readAll (samplesOf lines)).map (·.foldl ParsedMetrics.set {}) := by
  rw [parseMetricsText, Lines.splitlines_flatMap, parseLines_eq]
  rfl

theorem readings_of_parse {lines : List (List Char)} {parsed : ParsedMetrics V}
    (h : parseMetricsText (lines.flatMap (· ++ ['\n'])) = .ok parsed) :
    ∃ readings, readAll (samplesOf lines) = .ok readings ∧
      readings.foldl ParsedMetrics.set {} = parsed := by
  rw [parse_render] at h
  cases hall : readAll (V := V) (samplesOf lines) with
  | error e =>
    rw [hall] at h
    cases h
  | ok readings =>
    rw [hall] at h
    cases h
    exact ⟨readings, rfl, rfl⟩

/-- Ids that come back can be read. -/
theorem ParsedMetrics.Recovers.readableIds {lines : List (List Char)} {parsed : ParsedMetrics V}
    (hparsed : parseMetricsText (lines.flatMap (· ++ ['\n'])) = .ok parsed)
    (h : parsed.Recovers snapshot) : ReadableIds snapshot := by
  obtain ⟨readings, hall, rfl⟩ := readings_of_parse hparsed
  have hreadable : ∀ k hostId n, (snapshot.hostInts k).get? hostId = some n →
      ReadableId hostId := by
    intro k hostId n hget
    rw [← h.hostInts k hostId, (foldl_set readings).2.2.1 k hostId] at hget
    rcases List.mem_filterMap.mp (List.mem_of_getLast? hget) with ⟨reading, hmem, hat⟩
    cases reading with
    | int k' hostId' m =>
      simp only [intAt, Option.ite_none_right_eq_some] at hat
      rcases hat with ⟨⟨rfl, rfl⟩, _⟩
      rcases mem_readAll hall hmem with ⟨sample, hsample, hread⟩
      rcases sample_of_read hread with ⟨text, rfl⟩
      exact samplesOf_readable hsample
    | _ => cases hat
  rintro hostId (hcontains | hcontains)
  · rcases (Dict.contains_iff _).mp hcontains with ⟨n, hn⟩
    exact hreadable .tokenUsageTotal hostId n hn
  · rcases (Dict.contains_iff _).mp hcontains with ⟨stats, hstats⟩
    refine hreadable .completionsTotal hostId stats.completionsTotal ?_
    rw [SliSnapshot.hostInts, Dict.get?_mapValues, hstats]
    rfl

/-- With ids that can be read. -/
theorem recovers_iff (hV : PyFloat.Lawful V) (hids : ReadableIds snapshot)
    {lines : List (List Char)} (hlines : snapshot.lines = .ok lines) :
    (∃ parsed : ParsedMetrics V, parseMetricsText (lines.flatMap (· ++ ['\n'])) = .ok parsed ∧
      parsed.Recovers snapshot) ↔ RoundTrips snapshot := by
  have hreadings := @readAll_lines V _ snapshot hV hids lines hlines
  constructor
  · rintro ⟨parsed, hparsed, hrecovers⟩
    obtain ⟨readings, hall, rfl⟩ := readings_of_parse hparsed
    rcases hreadings.mp hall with ⟨strayReadings, depth, hstrays, hdouble, hfinite, heq⟩
    rcases foldl_readings snapshot heq with ⟨hdepth, hp95, hints, hfloats⟩
    have hp95' := hp95.symm.trans hrecovers.p95LatencyMs
    have hints' := fun k hostId => (hints k hostId).symm.trans (hrecovers.hostInts k hostId)
    have hfloats' := fun k hostId =>
      (hfloats k hostId).symm.trans (hrecovers.hostFloats k hostId)
    refine ⟨hids, ?_, ?_, ?_, ?_, strayReadings, hstrays, ?_, ?_, ?_⟩
    · have hsame := hdepth.symm.trans hrecovers.queueDepth
      exact toDouble_eq_self_iff.mp (hdouble.trans hsame)
    · intro k hostId n hget
      have hn := hints' k hostId
      rcases Option.isSome_iff_exists.mp (hfinite (.int k) (hostId, n)
        ((Dict.get?_eq_some _).mp hget)) with ⟨m, hm⟩
      rw [hget, Option.bind_some, hm, Option.some_or] at hn
      exact toDouble_eq_self_iff.mp (hm.trans hn)
    · by_contra hnan
      rw [asFloat_repr hV, if_pos (by simpa using hnan)] at hp95'
      -- then the value is one of the strays'
      cases hlast : (strayReadings.filterMap p95Of).getLast? with
      | none =>
        rw [hlast] at hp95'
        cases hp95'
      | some value =>
        rw [hlast, Option.getD_some] at hp95'
        rcases List.mem_filterMap.mp (List.mem_of_getLast? hlast) with ⟨reading, hmem, hat⟩
        rcases mem_readAll hstrays hmem with ⟨sample, _, hread⟩
        refine hnan (isNan_of_read hread (Or.inl ?_))
        cases reading with
        | p95LatencyMs value' =>
          cases hat
          rw [hp95']
        | _ => cases hat
    · intro k hostId v hget
      by_contra hnan
      have hv := hfloats' k hostId
      rw [hget, Option.bind_some, if_pos (by simpa using hnan), Option.none_or] at hv
      rcases List.mem_filterMap.mp (List.mem_of_getLast? hv) with ⟨reading, hmem, hat⟩
      rcases mem_readAll hstrays hmem with ⟨sample, _, hread⟩
      refine hnan (isNan_of_read hread (Or.inr ⟨k, hostId, ?_⟩))
      cases reading with
      | float k' hostId' w =>
        simp only [floatAt, Option.ite_none_right_eq_some] at hat
        rcases hat with ⟨⟨rfl, rfl⟩, heq⟩
        cases heq
        rfl
      | _ => cases hat
    · intro value hlast
      rwa [hlast, Option.getD_some] at hp95'
    · intro k hostId n hmem
      by_contra hcontains
      have hn := hints' k hostId
      rw [(Dict.contains_eq_false _).mp (Bool.eq_false_of_not_eq_true hcontains),
        Option.bind_none, Option.none_or, List.getLast?_eq_none_iff,
        List.filterMap_eq_nil_iff] at hn
      have hat := hn _ hmem
      simp [intAt] at hat
    · intro k hostId v hmem
      by_contra hcontains
      have hv := hfloats' k hostId
      rw [(Dict.contains_eq_false _).mp (Bool.eq_false_of_not_eq_true hcontains),
        Option.bind_none, Option.none_or, List.getLast?_eq_none_iff,
        List.filterMap_eq_nil_iff] at hv
      have hat := hv _ hmem
      simp [floatAt] at hat
  · rintro ⟨_, hdepth, hints, hp95, hfloats, strayReadings, hstrays, hharmless⟩
    have hfinite : ∀ metric, Finite snapshot metric := by
      rintro (k | k)
      · intro kv hkv
        have hdouble := hints k kv.1 kv.2 ((Dict.get?_eq_some _).mpr hkv)
        rw [toDouble_eq_self_iff.mpr hdouble]
        rfl
      · trivial
    have hdouble := toDouble_eq_self_iff.mpr hdepth
    rw [parse_render, hreadings.mpr ⟨strayReadings, _, hstrays, hdouble, hfinite, rfl⟩]
    rcases foldl_readings snapshot (rfl : .p95LatencyMs _ :: strayReadings ++
      .queueDepth (some snapshot.queueDepth) :: _ = _) with ⟨hdepth', hp95', hints', hfloats'⟩
    refine ⟨_, rfl, hdepth', ?_, ?_, ?_⟩
    · rw [hp95', asFloat_repr hV, hp95]
      cases hlast : (strayReadings.filterMap p95Of).getLast? with
      | none => rfl
      | some value => exact hharmless.p95LatencyMs value hlast
    · intro k hostId
      rw [hints']
      cases hget : (snapshot.hostInts k).get? hostId with
      | some n =>
        rw [Option.bind_some, toDouble_eq_self_iff.mpr (hints k hostId n hget), Option.some_or]
      | none =>
        -- the strays have nothing of the host either
        rw [Option.bind_none, Option.none_or, List.getLast?_eq_none_iff, List.filterMap_eq_nil_iff]
        intro reading hmem
        cases reading with
        | int k' hostId' n =>
          refine if_neg ?_
          rintro ⟨rfl, rfl⟩
          have hcontains := hharmless.hostInts _ _ _ hmem
          rw [(Dict.contains_eq_false _).mpr hget] at hcontains
          cases hcontains
        | _ => rfl
    · intro k hostId
      rw [hfloats']
      cases hget : (snapshot.hostFloats k).get? hostId with
      | some v => rw [Option.bind_some, if_neg (by simp [hfloats k hostId v hget]), Option.some_or]
      | none =>
        rw [Option.bind_none, Option.none_or, List.getLast?_eq_none_iff, List.filterMap_eq_nil_iff]
        intro reading hmem
        cases reading with
        | float k' hostId' v =>
          refine if_neg ?_
          rintro ⟨rfl, rfl⟩
          have hcontains := hharmless.hostFloats _ _ _ hmem
          rw [(Dict.contains_eq_false _).mpr hget] at hcontains
          cases hcontains
        | _ => rfl

/-- A snapshot whose integers are doubles has a text. -/
theorem lines_ok (snapshot : SliSnapshot V) (hdepth : IsDouble snapshot.queueDepth)
    (hints : ∀ k hostId n, (snapshot.hostInts k).get? hostId = some n → IsDouble n) :
    ∃ lines, snapshot.lines = .ok lines := by
  have hshort : ∀ {n : Int}, IsDouble n → PyFloat.Short n := fun h =>
    PyFloat.short_of_lt_two_pow h.2 (by omega)
  exact snapshot.lines_ok_iff.mpr
    ⟨hshort hdepth, fun k hostId n hget => hshort (hints k hostId n hget)⟩

/-- The text of the metrics is read back to what the snapshot has, if and only if the ids can be
read, the integers are doubles, no float is a NaN, and what other ids add is harmless. -/
theorem metrics_round_trip_iff (hV : PyFloat.Lawful V) {metrics metrics' : MetricsRegistry V}
    {now : Int} {reg : HostRegistry} {ε : Type} {queue : SchedulingQueue ε}
    (hsnapshot : metrics.snapshot now reg queue = .ok (metrics', snapshot)) :
    (∃ text, metrics.renderPrometheus now reg queue = .ok (metrics', text) ∧
      ∃ parsed : ParsedMetrics V, parseMetricsText text = .ok parsed ∧
        parsed.Recovers snapshot) ↔ RoundTrips snapshot := by
  constructor
  · rintro ⟨text, hrender, parsed, hparsed, hrecovers⟩
    rcases Json.except_bind_ok hrender with ⟨⟨metrics'', snapshot'⟩, hsame, hrender⟩
    rw [hsnapshot] at hsame
    cases hsame
    rcases Json.except_bind_ok hrender with ⟨text', htext, hpure⟩
    cases hpure
    rcases Json.except_bind_ok htext with ⟨lines, hlines, hpure⟩
    cases hpure
    have hids := hrecovers.readableIds hparsed
    exact (recovers_iff hV hids hlines).mp ⟨parsed, hparsed, hrecovers⟩
  · intro h
    rcases lines_ok snapshot h.queueDepth h.hostInts with ⟨lines, hlines⟩
    rcases (recovers_iff hV h.hostIds hlines).mpr h with ⟨parsed, hparsed, hrecovers⟩
    refine ⟨_, ?_, parsed, hparsed, hrecovers⟩
    simp [MetricsRegistry.renderPrometheus, hsnapshot, SliSnapshot.render, hlines, bind,
      Except.bind, pure, Except.pure]

/-- Hosts whose ids have no line separator add nothing. -/
theorem strays_eq_nil (hV : PyFloat.Lawful V)
    (h : ∀ hostId ∈ snapshot.hostSaturation.keys, Unbroken hostId.toList) : strays snapshot = [] := by
  have hlines : ∀ values : List (String × V), (∀ kv ∈ values, Unbroken kv.1.toList) →
      samplesOf (SliSnapshot.floatLines "llm_home_lab_host_saturation_ratio" values) = [] := by
    intro values
    induction values with
    | nil => exact fun _ => rfl
    | cons kv rest ih =>
      intro hall
      have hname : Unbroken "llm_home_lab_host_saturation_ratio".toList := unbroken_ofList rfl
      have hline := unbroken_hostLine hname (hall kv (List.mem_cons_self ..)) (visible_repr hV kv.2)
      have hletter : (hostLine "llm_home_lab_host_saturation_ratio" kv.1
          (PyFloat.repr kv.2)).head? = some 'l' := by
        rw [hostLine, List.head?_append, head_ofList rfl]
        rfl
      rw [SliSnapshot.floatLines, List.map_cons, samplesOf_cons, samplesOf_line hline,
        sampleOf_letter hletter, hostLine, matchPatterns_unread unread_saturation]
      exact ih fun kv' hkv' => hall kv' (List.mem_cons_of_mem _ hkv')
  exact hlines _ fun kv hkv => h _ (List.mem_map_of_mem hkv)

end

/-! ## Whole numbers -/

/-- The floats that are whole numbers, and infinity. -/
abbrev WholeFloat := Option Int

instance : PyFloat WholeFloat where
  zero := some 0
  one := some 1
  add a b := do return (← a) + (← b)
  lt a b := match a, b with
    | some a, some b => a < b
    | some _, none => true
    | none, _ => false
  intDiv m n := if n = 0 then .error .zeroDivisionError else .ok (some (m / n))
  divInt x n := if n = 0 then .error .zeroDivisionError else .ok (x.map (· / n))
  isNan _ := false
  repr
    | some n => PyFloat.digits n ++ ['.', '0']
    | none => ['i', 'n', 'f']
  ofText text :=
    if text = ['i', 'n', 'f'] then some none
    else if text.reverse.take 2 = ['0', '.'] then
      (String.ofList (text.reverse.drop 2).reverse).toInt?.map some
    else (String.ofList text).toInt?.map Rounding.toDouble
  toInt x := x.elim (.error .overflowError) .ok

theorem visible_of_all {text : List Char} (h : text.all (!Json.isSpace ·) = true) :
    ∀ c ∈ text, Json.isSpace c = false := by
  simpa using h

theorem lawful_wholeFloat : PyFloat.Lawful WholeFloat where
  ofText_repr v _ := by
    cases v with
    | none => rfl
    | some n =>
      have hinf : PyFloat.digits n ++ ['.', '0'] ≠ ['i', 'n', 'f'] := by
        intro heq
        have hlast := congrArg List.getLast? heq
        simp at hlast
      have hreverse : (PyFloat.digits n ++ ['.', '0']).reverse =
          '0' :: '.' :: (PyFloat.digits n).reverse := by simp
      have htext : String.ofList (PyFloat.digits n) = n.repr := String.ofList_toList
      have hrepr : PyFloat.repr (some n : WholeFloat) = PyFloat.digits n ++ ['.', '0'] := rfl
      simp only [PyFloat.ofText, hrepr]
      rw [if_neg hinf, hreverse, if_pos (by rfl), List.drop_succ_cons, List.drop_succ_cons,
        List.drop_zero, List.reverse_reverse, htext, Int.toInt?_repr]
      rfl
  ofText_nan v h := by cases h
  repr_ne v := by
    cases v with
    | none => exact List.cons_ne_nil _ _
    | some n => simp [PyFloat.repr]
  repr_visible v := by
    cases v with
    | none => exact visible_of_all rfl
    | some n =>
      intro c hc
      rcases List.mem_append.mp hc with hc | hc
      · exact PyFloat.digits_visible n c hc
      · exact visible_of_all rfl c hc
  ofText_digits n := by
    have hdot : (PyFloat.digits n).reverse.take 2 ≠ ['0', '.'] := by
      intro heq
      have hmem : '.' ∈ (PyFloat.digits n).reverse.take 2 := by
        rw [heq]
        decide
      rcases PyFloat.mem_digits (List.mem_reverse.mp (List.mem_of_mem_take hmem)) with h | h <;>
        cases h
    have hinf : PyFloat.digits n ≠ ['i', 'n', 'f'] := by
      intro heq
      have hmem : 'i' ∈ PyFloat.digits n := by
        rw [heq]
        decide
      rcases PyFloat.mem_digits hmem with h | h <;> cases h
    refine ⟨Rounding.toDouble n, ?_, rfl⟩
    have htext : String.ofList (PyFloat.digits n) = n.repr := String.ofList_toList
    simp only [PyFloat.ofText]
    rw [if_neg hinf, if_neg hdot, htext, Int.toInt?_repr]
    rfl

/-- A node with the given id. -/
def oneNode (hostId : String) : HostRegistry :=
  HostRegistry.empty.register hostId
    { backendType := some "ollama", contextWindow := some 8192, baseUrl := some "http://gpu:11434" }
    ⟨some 2⟩ 0

/-- A completion has been served by the node. -/
def oneCompletion (hostId : String) : MetricsRegistry WholeFloat :=
  (({ window := 300000000 } : MetricsRegistry WholeFloat).recordTokenUsage hostId 5 7
    ).recordHostCompletion hostId (some 120) 5 7

/-- What is seen of it. -/
def oneSnapshot (hostId : String) : SliSnapshot WholeFloat where
  availability := some 1
  p95LatencyMs := some 0
  failoverSuccessRate := none
  hostSaturation := Dict.empty.set hostId (some 0)
  queueDepth := 0
  tokenUsageTotal := Dict.empty.set hostId 12
  hostCompletionStats := Dict.empty.set hostId
    { completionsTotal := 1, avgLatencyMs := some 120, promptTokensAvg := some 5
      promptTokensMin := 5, promptTokensMax := 5, completionTokensAvg := some 7
      completionTokensMin := 7, completionTokensMax := 7 }

theorem oneSnapshot_ints (hostId : String) (k : HostInt) (hostId' : String) (n : Int)
    (hget : ((oneSnapshot hostId).hostInts k).get? hostId' = some n) : Rounding.IsDouble n := by
  have hsmall : n = 12 ∨ n = 1 ∨ n = 5 ∨ n = 7 := by
    cases k <;>
      simp only [oneSnapshot, SliSnapshot.hostInts, Dict.get?_mapValues, Dict.get?_set,
        Dict.get?_empty] at hget <;> split at hget <;> simp_all
  rcases hsmall with rfl | rfl | rfl | rfl <;> exact Rounding.isDouble_of_lt (by decide)

/-- A host named gpu-1. -/
theorem metrics_round_trip_iff_gpu : ∃ metrics' text, ∃ parsed : ParsedMetrics WholeFloat,
    (oneCompletion "gpu-1").snapshot 0 (oneNode "gpu-1") ({} : SchedulingQueue Unit) =
      .ok (metrics', oneSnapshot "gpu-1") ∧
    (oneCompletion "gpu-1").renderPrometheus 0 (oneNode "gpu-1") ({} : SchedulingQueue Unit) =
      .ok (metrics', text) ∧
    parseMetricsText text = .ok parsed ∧ parsed.Recovers (oneSnapshot "gpu-1") := by
  have hsnapshot : (oneCompletion "gpu-1").snapshot 0 (oneNode "gpu-1")
      ({} : SchedulingQueue Unit) = .ok (_, oneSnapshot "gpu-1") := rfl
  have hempty : ∀ {W : Type} (hostId : String),
      (Dict.empty : Dict String W).contains hostId = false :=
    fun _ => rfl
  have hround := (metrics_round_trip_iff lawful_wholeFloat hsnapshot).mpr ?_
  · rcases hround with ⟨text, hrender, parsed, hparsed, hrecovers⟩
    exact ⟨_, text, parsed, hsnapshot, hrender, hparsed, hrecovers⟩
  · refine ⟨?_, Rounding.isDouble_of_lt (by decide), oneSnapshot_ints _, rfl, fun _ _ _ _ => rfl,
      [], ?_, ?_⟩
    · intro hostId hcontains
      have hgpu : hostId = "gpu-1" := by
        simpa [oneSnapshot, Dict.contains_set_iff, hempty] using hcontains
      subst hgpu
      exact readableId_ofList rfl
    · rw [strays_eq_nil lawful_wholeFloat]
      · rfl
      · intro hostId hmem
        rw [List.mem_singleton.mp hmem]
        exact unbroken_ofList rfl
    · exact ⟨fun _ h => (by cases h), fun _ _ _ h => (by cases h), fun _ _ _ h => (by cases h)⟩

/-- A host id with a quote in it is accepted, and its metrics are not read. -/
theorem metrics_quoted_id : ∃ metrics' text,
    (oneCompletion "gpu\"1").snapshot 0 (oneNode "gpu\"1") ({} : SchedulingQueue Unit) =
      .ok (metrics', oneSnapshot "gpu\"1") ∧
    (oneCompletion "gpu\"1").renderPrometheus 0 (oneNode "gpu\"1") ({} : SchedulingQueue Unit) =
      .ok (metrics', text) ∧
    ¬ ∃ parsed : ParsedMetrics WholeFloat, parseMetricsText text = .ok parsed ∧
      parsed.Recovers (oneSnapshot "gpu\"1") := by
  have hsnapshot : (oneCompletion "gpu\"1").snapshot 0 (oneNode "gpu\"1")
      ({} : SchedulingQueue Unit) = .ok (_, oneSnapshot "gpu\"1") := rfl
  rcases lines_ok (oneSnapshot "gpu\"1") (Rounding.isDouble_of_lt (by decide))
    (oneSnapshot_ints _) with ⟨lines, hlines⟩
  refine ⟨_, lines.flatMap (· ++ ['\n']), hsnapshot, ?_, ?_⟩
  · simp [MetricsRegistry.renderPrometheus, hsnapshot, SliSnapshot.render, hlines, bind,
      Except.bind, pure, Except.pure]
  · rintro ⟨parsed, hparsed, hrecovers⟩
    have hid := hrecovers.readableIds hparsed "gpu\"1" (Or.inl rfl)
    exact (hid.2 '"' (by decide)).1 rfl

end LlmHomeLab
