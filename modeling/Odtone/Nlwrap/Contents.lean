import Odtone.Nlwrap.Beacon

/-! # The contents of a beacon

The outer loop of the parser goes from element to element: in front of every round it has read some
of the elements of a beacon and stands at the others, and the SSID and the rates are those of the
elements read. Together with the services met on the walk, this is all that is reported. -/

namespace Odtone.Nlwrap

open List Except

/-! ## The bytes of an element -/

section Bytes

variable {pre rest : List Ie} {e : Ie} {beyond : Nat → UInt8}

theorem beacon_append (es fs : List Ie) : beacon (es ++ fs) = beacon es ++ beacon fs :=
  flatMap_append

theorem beacon_cons (e : Ie) (es : List Ie) : beacon (e :: es) = e.bytes ++ beacon es :=
  flatMap_cons

theorem length_beacon_cons (e : Ie) (es : List Ie) :
    (beacon (e :: es)).length = e.body.length + 2 + (beacon es).length := by
  rw [beacon_cons, length_append, Ie.bytes, length_cons, length_cons]

/-- The bytes of an element stand in the memory behind those of the elements before it. -/
theorem memory_beacon {i : Nat} {v : UInt8} (h : e.bytes[i]? = some v) :
    memory (beacon (pre ++ e :: rest)) beyond ((beacon pre).length + i) = v := by
  have hi : i < e.bytes.length := (List.getElem?_eq_some_iff.mp h).1
  rw [memory, beacon_append, beacon_cons, getElem?_append_right (Nat.le_add_right _ _),
    Nat.add_sub_cancel_left, getElem?_append_left hi, h]
  rfl

theorem memory_id : memory (beacon (pre ++ e :: rest)) beyond (beacon pre).length = e.id :=
  memory_beacon (i := 0) rfl

theorem memory_length :
    (memory (beacon (pre ++ e :: rest)) beyond ((beacon pre).length + 1)).toNat =
    e.body.length := by
  rw [memory_beacon rfl]
  exact UInt8.toNat_ofNat_of_lt' e.fits

theorem memory_body :
    bytesAt (memory (beacon (pre ++ e :: rest)) beyond) ((beacon pre).length + 2) e.body.length =
      e.body := by
  have hlength : (bytesAt (memory (beacon (pre ++ e :: rest)) beyond) ((beacon pre).length + 2)
      e.body.length).length = e.body.length := by
    rw [bytesAt, length_map, length_range]
  refine ext_getElem hlength fun i _ hi => ?_
  have hbyte : e.bytes[2 + i]? = some e.body[i] := by
    rw [Nat.add_comm]
    exact getElem?_eq_getElem hi
  simp only [bytesAt, getElem_map, getElem_range]
  rw [Nat.add_assoc, memory_beacon hbyte]

end Bytes

/-! ## Rates -/

/-- A rate is reported if it is not zero. -/
def reported (rate : Nat) : Option Nat := if rate = 0 then none else some rate

/-- The parser with a maximal rate, and its report. -/
def Parser.withMax (s : Parser) (m : Nat) : Parser :=
  { s with maxRate := m, msg := { s.msg with ieMaxDataRate := reported m } }

section Rates

variable {ε : Type} {read : Nat → Except ε UInt8} {mem : Nat → UInt8} {s : Parser}

theorem rate_withMax (hread : ∀ i, read i = .ok (mem i)) (data r m : Nat) :
    rate read data (s.withMax m) r = .ok (s.withMax (max m (toRate (mem (data + r))))) := by
  rw [rate, hread]
  by_cases h : toRate (mem (data + r)) > m
  · have hpos : toRate (mem (data + r)) ≠ 0 := Nat.ne_zero_of_lt h
    have hreported : reported (toRate (mem (data + r))) = some (toRate (mem (data + r))) :=
      if_neg hpos
    rw [max_eq_right h.le]
    refine congrArg ok ((if_pos h).trans ?_)
    simp only [Parser.withMax, hreported]
    rfl
  · rw [max_eq_left (not_lt.mp h)]
    exact congrArg ok (if_neg h)

theorem rates_withMax (hread : ∀ i, read i = .ok (mem i)) (data len m : Nat) :
    rates read data len (s.withMax m) =
      .ok (s.withMax (((bytesAt mem data len).map toRate).foldl max m)) := by
  unfold rates bytesAt
  generalize range len = rs
  induction rs generalizing m with
  | nil => rfl
  | cons r rs ih =>
    rw [foldlM_cons, rate_withMax hread]
    exact ih _

end Rates

/-! ## Elements read and elements to come -/

/-- The parser has read the elements `pre` of a beacon and stands at the first of `suf`. -/
structure Position (es pre suf : List Ie) (s : Parser) : Prop where
  split : es = pre ++ suf
  ie : s.ie = (beacon pre).length
  ielen : s.ielen = (beacon suf).length
  tuples : s.tuples.isSome →
    ∃ e rest, suf = e :: rest ∧ (e.element = .interworking ∨ e.element = .advertProto)

/-- What is known of a beacon when the elements `pre` have been read. -/
structure Known (pre : List Ie) (m : Nat) (msg : GenlMsg) : Prop where
  ssid : msg.ieSsid = lastSsid pre
  maxRate : m = (allRates pre).foldl max 0
  rate : msg.ieMaxDataRate = reported m
  services : msg.ieHasMihInformationService ≠ some false ∧
    msg.ieHasMihCommandService ≠ some false ∧ msg.ieHasMihEventService ≠ some false

theorem lastSsid_concat (pre : List Ie) (e : Ie) :
    lastSsid (pre ++ [e]) = if e.element = .ssid then some e.body else lastSsid pre := by
  by_cases h : e.element = .ssid
  all_goals simp [lastSsid, h]

theorem allRates_concat (pre : List Ie) (e : Ie) :
    allRates (pre ++ [e]) = allRates pre ++ e.rates := by
  simp [allRates]

section Steps

variable {es pre rest : List Ie} {e : Ie} {s t : Parser} {m : Nat} {msg msg' : GenlMsg}

theorem Known.congr (h : Known pre m msg) (hmsg : msg'.contents = msg.contents) :
    Known pre m msg' := by
  simp only [GenlMsg.contents, Prod.mk.injEq] at hmsg
  obtain ⟨hssid, hrate, hinformation, hcommand, hevent⟩ := hmsg
  exact ⟨hssid.trans h.ssid, h.maxRate, hrate.trans h.rate, by
    rw [hinformation, hcommand, hevent]
    exact h.services⟩

/-- Elements of other kinds say nothing of the network and the rates. -/
theorem Known.other (h : Known pre m msg) (hssid : e.element ≠ .ssid)
    (hrates : e.element ≠ .rates) : Known (pre ++ [e]) m msg := by
  refine ⟨?_, ?_, h.rate, h.services⟩
  · rw [lastSsid_concat, if_neg hssid, h.ssid]
  · rw [allRates_concat, Ie.rates, if_neg hrates, append_nil, h.maxRate]

theorem Known.announce (h : Known pre m msg) (kind : UInt8) : Known pre m (msg.announce kind) := by
  unfold GenlMsg.announce
  split_ifs with hone htwo
  · exact ⟨h.ssid, h.maxRate, h.rate, by simp, h.services.2⟩
  · exact ⟨h.ssid, h.maxRate, h.rate, h.services.1, by simp, by simp⟩
  · exact h

theorem Position.congr {suf : List Ie} (h : Position es pre suf s) (hie : t.ie = s.ie)
    (hielen : t.ielen = s.ielen) (htuples : t.tuples = s.tuples) : Position es pre suf t := by
  refine ⟨h.split, hie.trans h.ie, hielen.trans h.ielen, ?_⟩
  rw [htuples]
  exact h.tuples

/-- The end of a round of the outer loop. -/
theorem Position.advance (h : Position es pre (e :: rest) s) {len : UInt8}
    (hlen : len.toNat = e.body.length) : Position es (pre ++ [e]) rest (s.advance len) := by
  have hone : (beacon [e]).length = e.body.length + 2 := by
    rw [length_beacon_cons]
    rfl
  have hielen := h.ielen
  rw [length_beacon_cons] at hielen
  refine ⟨?_, ?_, ?_, ?_⟩
  · rw [h.split, append_assoc]
    rfl
  · rw [beacon_append, length_append, hone, Parser.advance, h.ie, hlen]
  · simp only [Parser.advance, hielen, hlen]
    push_cast
    omega
  · simp [Parser.advance]

end Steps

/-- In front of a round: some elements have been read, and what is known is what they say. -/
def At (es : List Ie) (s : Parser) : Prop :=
  ∃ pre suf, Position es pre suf s ∧ Known pre s.maxRate s.msg

section Rounds

variable {ε : Type} {read : Nat → Except ε UInt8} {beyond : Nat → UInt8}
  {es pre rest : List Ie} {e : Ie} {s t : Parser} {len : UInt8}
  (hread : ∀ i, read i = .ok (memory (beacon es) beyond i))

include hread

theorem at_switch (hpos : Position es pre (e :: rest) s) (hk : Known pre s.maxRate s.msg)
    (hlen : len.toNat = e.body.length) (h : switch read s e.id len = .ok t) : At es t := by
  have hbody : bytesAt (memory (beacon es) beyond) (s.ie + 2) len.toNat = e.body := by
    rw [hpos.split, hpos.ie, hlen]
    exact memory_body
  have hskip : ∀ {u : Parser}, u.ie = s.ie → u.ielen = s.ielen → u.tuples = s.tuples →
      Known (pre ++ [e]) u.maxRate u.msg → At es (u.advance len) := fun hie hielen htuples hu =>
    ⟨pre ++ [e], rest, (hpos.congr hie hielen htuples).advance hlen, hu⟩
  have hother : e.element ≠ .ssid → e.element ≠ .rates → ∀ {msg : GenlMsg},
      msg.contents = s.msg.contents → At es ({ s with msg }.advance len) :=
    fun hssid hrates msg hmsg => hskip rfl rfl rfl ((hk.congr hmsg).other hssid hrates)
  unfold switch at h
  rw [← Ie.element] at h
  cases hid : e.element with
  | ssid =>
    rw [hid] at h
    obtain ⟨ssid, hssid, h⟩ := bind_eq_ok.mp h
    cases h
    rw [readBytes_total hread, hbody] at hssid
    cases hssid
    refine hskip rfl rfl rfl ⟨?_, ?_, hk.rate, hk.services⟩
    · rw [lastSsid_concat, if_pos hid]
    · rw [allRates_concat, Ie.rates, if_neg (by rw [hid]; decide), append_nil, hk.maxRate]
  | rates =>
    rw [hid] at h
    obtain ⟨u, hu, h⟩ := bind_eq_ok.mp h
    cases h
    have hs : s = s.withMax s.maxRate := by
      rw [Parser.withMax, ← hk.rate]
    rw [hs, rates_withMax hread, ← hs, hbody] at hu
    cases hu
    refine hskip rfl rfl rfl ⟨?_, ?_, rfl, hk.services⟩
    · rw [lastSsid_concat, if_neg (by rw [hid]; decide)]
      exact hk.ssid
    · rw [allRates_concat, foldl_append, ← hk.maxRate, Ie.rates, if_pos hid]
      rfl
  | rsn | other =>
    rw [hid] at h
    cases h
    exact hother (by rw [hid]; decide) (by rw [hid]; decide) rfl
  | vendor =>
    rw [hid] at h
    obtain ⟨msg, hmsg, h⟩ := bind_eq_ok.mp h
    cases h
    exact hother (by rw [hid]; decide) (by rw [hid]; decide) (vendor_keeps hmsg)
  | interworking =>
    rw [hid] at h
    obtain ⟨msg, hmsg, h⟩ := bind_eq_ok.mp h
    cases h
    exact ⟨pre, e :: rest, ⟨hpos.split, hpos.ie, hpos.ielen, fun _ => ⟨e, rest, rfl, .inl hid⟩⟩,
      hk.congr (interworking_keeps hmsg)⟩
  | advertProto =>
    rw [hid] at h
    cases h
    exact ⟨pre, e :: rest, ⟨hpos.split, hpos.ie, hpos.ielen, fun _ => ⟨e, rest, rfl, .inr hid⟩⟩, hk⟩

/-- The length of the element the parser stands at. -/
theorem Position.read_length
    (hpos : Position es pre (e :: rest) s) (h : read (s.ie + 1) = .ok len) :
    len.toNat = e.body.length := by
  rw [hread, hpos.split, hpos.ie] at h
  rw [← ok.inj h]
  exact memory_length

theorem at_elementRound (hs : At es s) (h : elementRound read s = .ok (some t)) : At es t := by
  obtain ⟨pre, suf, hpos, hk⟩ := hs
  unfold elementRound at h
  split at h
  next => cases h
  next hlen =>
    obtain ⟨len, hl, h⟩ := bind_eq_ok.mp h
    split at h
    next => cases h
    next =>
      obtain ⟨id, hid, h⟩ := bind_eq_ok.mp h
      obtain ⟨u, hu, h⟩ := bind_eq_ok.mp h
      cases h
      cases suf with
      | nil =>
        rw [hpos.ielen] at hlen
        exact absurd (by decide) hlen
      | cons e rest =>
        obtain rfl : id = e.id := by
          rw [hread, hpos.split, hpos.ie, memory_id] at hid
          exact (ok.inj hid).symm
        exact at_switch hread hpos hk (hpos.read_length hread hl) hu

theorem at_tupleRound {tuple : Nat} {complete : Bool}
    (htuples : s.tuples = some (tuple, complete)) (hs : At es s)
    (h : tupleRound read s tuple complete = .ok (some t)) : At es t := by
  obtain ⟨pre, suf, hpos, hk⟩ := hs
  obtain ⟨e, rest, rfl, he⟩ := hpos.tuples (by rw [htuples]; rfl)
  obtain ⟨len, hl, h⟩ := bind_eq_ok.mp h
  split at h
  next =>
    obtain ⟨kind, -, h⟩ := bind_eq_ok.mp h
    obtain ⟨jump, -, h⟩ := bind_eq_ok.mp h
    cases h
    exact ⟨pre, e :: rest, ⟨hpos.split, hpos.ie, hpos.ielen, fun _ => ⟨e, rest, rfl, he⟩⟩,
      hk.announce kind⟩
  next =>
    cases h
    refine ⟨pre ++ [e], rest, hpos.advance (hpos.read_length hread hl), hk.other ?_ ?_⟩
    all_goals
      rcases he with he | he
      · rw [he]
        decide
      · rw [he]
        decide

theorem at_round (hs : At es s) (h : round read s = .ok (some t)) : At es t := by
  unfold round at h
  split at h
  next => exact at_elementRound hread hs h
  next htuples => exact at_tupleRound hread htuples hs h

/-- When the outer loop is left, all elements have been read. -/
theorem known_of_left (hs : At es s) (h : round read s = .ok none) : Known es s.maxRate s.msg := by
  obtain ⟨pre, suf, hpos, hk⟩ := hs
  cases suf with
  | nil =>
    rw [hpos.split, append_nil]
    exact hk
  | cons e rest =>
    have hielen := hpos.ielen
    rw [length_beacon_cons] at hielen
    push_cast at hielen
    unfold round at h
    split at h
    next =>
      unfold elementRound at h
      split at h
      next hlen => omega
      next =>
        obtain ⟨len, hl, h⟩ := bind_eq_ok.mp h
        have hlen := hpos.read_length hread hl
        split at h
        next hbig => omega
        next =>
          obtain ⟨id, -, h⟩ := bind_eq_ok.mp h
          obtain ⟨u, -, h⟩ := bind_eq_ok.mp h
          cases h
    next =>
      obtain ⟨len, -, h⟩ := bind_eq_ok.mp h
      split at h
      next =>
        obtain ⟨kind, -, h⟩ := bind_eq_ok.mp h
        obtain ⟨jump, -, h⟩ := bind_eq_ok.mp h
        cases h
      next => cases h

end Rounds

/-! ## What is reported -/

theorem foldl_max_pos (l : List Nat) (m : Nat) : 0 < l.foldl max m ↔ 0 < m ∨ ∃ r ∈ l, 0 < r := by
  induction l generalizing m with
  | nil => simp
  | cons r l ih => simp [ih, or_assoc]

/-- The maximal rate is reported if it is not zero. -/
theorem reported_eq_max?_iff (l : List Nat) :
    reported (l.foldl max 0) = l.max? ↔ l = [] ∨ ∃ r ∈ l, 0 < r := by
  cases l with
  | nil => simp [reported]
  | cons a l =>
    have hpos := foldl_max_pos (a :: l) 0
    have hmax : (a :: l).max? = some ((a :: l).foldl max 0) := by
      rw [max?_cons', foldl_cons, Nat.zero_max]
    rw [hmax, reported]
    constructor
    · intro h
      split_ifs at h with hzero
      exact .inr ((hpos.mp (Nat.pos_of_ne_zero hzero)).resolve_left (Nat.lt_irrefl 0))
    · rintro (h | h)
      · cases h
      · exact if_neg (Nat.ne_of_gt (hpos.mpr (.inr h)))

/-- The reads of a parser of a beacon, with what stands behind it in the memory. -/
def reading (es : List Ie) (beyond : Nat → UInt8) (i : Nat) : Except Unit UInt8 :=
  .ok (memory (beacon es) beyond i)

section Parse

variable {es : List Ie} {beyond : Nat → UInt8} {fuel : Nat} {msg : GenlMsg}

theorem known_of_parse
    (h : parseInformationElements (reading es beyond) fuel {} (beacon es).length = .ok (some msg)) :
    (∃ m, Known es m msg) ∧ ∃ p : Point, p.announced = msg.announced ∧
      Loop.run (Point.next (memory (beacon es) beyond) (beacon es).length) fuel
        (GenlMsg.start {}) = some p := by
  have hread : ∀ i, reading es beyond i = .ok (memory (beacon es) beyond i) := fun _ => rfl
  obtain ⟨s, hs, hrun, hwalk⟩ := parseInformationElements_total hread (beacon es).length fuel {}
  rw [hs] at h
  obtain ⟨t, rfl, rfl⟩ := Option.map_eq_some_iff.mp (ok.inj h)
  have hstart : At es { ie := 0, ielen := (beacon es).length, msg := {} } :=
    ⟨[], es, ⟨rfl, rfl, rfl, nofun⟩, ⟨rfl, rfl, rfl, by simp⟩⟩
  obtain ⟨ht, hleft⟩ := Loop.runE_induct (At es) hstart
    (fun u v hu huv => at_round hread hu huv) hrun
  exact ⟨⟨t.maxRate, known_of_left hread ht hleft⟩, t.point, rfl, hwalk⟩

theorem service_information : Announced.Service Announced.information 1 where
  add a k := by
    unfold Announced.add
    split_ifs with hone htwo
    all_goals simp [hone]

theorem service_command : Announced.Service Announced.command 2 where
  add a k := by
    unfold Announced.add
    split_ifs with hone htwo
    · simp [hone]
    all_goals simp [htwo]

theorem service_event : Announced.Service Announced.event 2 where
  add a k := by
    unfold Announced.add
    split_ifs with hone htwo
    · simp [hone]
    all_goals simp [htwo]

theorem eq_some_true_iff {o : Option Bool} (h : o ≠ some false) :
    o = some true ↔ o.isSome = true := by
  cases o with
  | none => simp
  | some b =>
    cases b with
    | false => exact absurd rfl h
    | true => simp

/-- A message is faithful if the services met are those advertised, and rates are not all zero. -/
theorem faithful_iff_of_parse
    (h : parseInformationElements (reading es beyond) fuel {} (beacon es).length = .ok (some msg)) :
    let meets := Point.Meets (memory (beacon es) beyond) (beacon es).length (GenlMsg.start {})
    Faithful es msg ↔ (meets 1 ↔ Advertises es 1) ∧ (meets 2 ↔ Advertises es 2) ∧
      (allRates es = [] ∨ ∃ r ∈ allRates es, 0 < r) := by
  obtain ⟨⟨m, hk⟩, p, hp, hrun⟩ := known_of_parse h
  obtain ⟨hinformation, hcommand, hevent⟩ := hk.services
  have hone := Point.announced_iff_meets service_information rfl hrun
  have htwo := Point.announced_iff_meets service_command rfl hrun
  have htwo' := Point.announced_iff_meets service_event rfl hrun
  rw [hp] at hone htwo htwo'
  have hmax : msg.ieMaxDataRate = (allRates es).max? ↔
      allRates es = [] ∨ ∃ r ∈ allRates es, 0 < r := by
    rw [hk.rate, hk.maxRate, reported_eq_max?_iff]
  constructor
  · intro hf
    refine ⟨?_, ?_, hmax.mp hf.rate⟩
    · rw [← hf.information, eq_some_true_iff hinformation]
      exact hone.symm
    · rw [← hf.command, eq_some_true_iff hcommand]
      exact htwo.symm
  · rintro ⟨h1, h2, hrates⟩
    refine ⟨hk.ssid, hmax.mpr hrates, ?_, ?_, ?_⟩
    · rw [eq_some_true_iff hinformation, ← h1]
      exact hone
    · rw [eq_some_true_iff hcommand, ← h2]
      exact htwo
    · rw [eq_some_true_iff hevent, ← h2]
      exact htwo'

end Parse

/-- The parser reports what a beacon says if and only if the walk over the tuples does not stall,
the services it meets are those advertised, and the rates are not all zero. -/
theorem parseInformationElements_faithful_iff (es : List Ie) (beyond : Nat → UInt8) :
    let mem := memory (beacon es) beyond
    let n := (beacon es).length
    let start := GenlMsg.start {}
    (∃ fuel msg, parseInformationElements (reading es beyond) fuel {} n = .ok (some msg) ∧
        Faithful es msg) ↔
      (∀ k p, Loop.after (Point.next mem n) k start = some p → ¬ p.Stalls mem) ∧
      (Point.Meets mem n start 1 ↔ Advertises es 1) ∧
        (Point.Meets mem n start 2 ↔ Advertises es 2) ∧
      (allRates es = [] ∨ ∃ r ∈ allRates es, 0 < r) := by
  intro mem n start
  constructor
  · rintro ⟨fuel, msg, h, hf⟩
    obtain ⟨-, p, -, hrun⟩ := known_of_parse h
    exact ⟨fun k q hq => Point.not_stalls_of_run hrun hq, (faithful_iff_of_parse h).mp hf⟩
  · rintro ⟨hstalls, hrest⟩
    obtain ⟨p, hp⟩ := Point.run_iff_not_stalls.mpr hstalls
    have hread : ∀ i, reading es beyond i = .ok (mem i) := fun _ => rfl
    obtain ⟨s, hs, -, hwalk⟩ := parseInformationElements_total hread n (start.rank mem n + 1) {}
    obtain ⟨t, rfl, -⟩ := Option.map_eq_some_iff.mp (hwalk.symm.trans hp)
    exact ⟨_, t.msg, hs, (faithful_iff_of_parse hs).mpr hrest⟩

/-- The venue of an interworking element is taken for the information service of an MIHF. -/
theorem parseInformationElements_misreports :
    let es : List Ie := [⟨0, [0x61], by decide⟩, ⟨107, [0, 1, 7], by decide⟩]
    (∀ e ∈ es, e.TwoByteTuples) ∧ ¬ Advertises es 1 ∧
      ∃ msg, parseInformationElements (reading es fun _ => 0) 10 {} (beacon es).length =
        .ok (some msg) ∧ msg.ieHasMihInformationService = some true :=
  ⟨by decide, by decide, _, rfl, rfl⟩

end Odtone.Nlwrap
