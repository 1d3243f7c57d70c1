import Noaaport.Grib2Messages

/-! Whole GRIB2 messages: what any calls of `g2_create`, `g2_addlocal`, `g2_addgrid`, `g2_addfield` and
`g2_gribend` put together, `g2_info` and `g2_getfld` take apart again. -/
namespace Noaaport.G2
open Lib

section Reading
variable {c : Cgrib} {disc : Int} {a b k last : Nat} {g : Gribfield} {cs : List Content} {content : Content}

/-- What a section does to the field that is asked for. -/
def Content.take (disc : Int) (k : Nat) (g : Gribfield) : Content → Gribfield
  | .ident ids => { g with idsect := some ids }
  | .loc bs => { g with loc := some (bs.length, bs) }
  | .grid gd => { g with grid := some gd }
  | .prod p =>
    if g.numfld + 1 = k then { g with numfld := g.numfld + 1, discipline := some disc, prod := some p }
    else { g with numfld := g.numfld + 1 }
  | .pack p => if g.numfld = k then { g with pack := some p } else g
  | .bitmap i => { g with ibmap := some i }
  | .data => g

/-- The sections up to the one that completes the field. -/
def decode (disc : Int) (k : Nat) : List Content → Gribfield → Int × Gribfield
  | [], g => (6, g)
  | content :: cs, g =>
    if (content.take disc k g).complete then (0, content.take disc k g)
    else decode disc k cs (content.take disc k g)

theorem takeSection_content (hnum : isecnum c a = content.num) (hat : content.At c a) :
    takeSection c disc k a g = some (.ok (content.take disc k g)) := by
  rw [takeSection, hnum]
  cases content with
  | ident ids =>
    have hat : g2_unpack1 c a = .ok ids := hat
    simp [Content.num, Content.take, part, hat]
  | loc bytes =>
    have hat : g2_unpack2 c a = .ok (bytes.length, bytes) := hat
    simp [Content.num, Content.take, part, hat]
  | grid grid =>
    have hat : g2_unpack3 c a = .ok grid := hat
    simp [Content.num, Content.take, part, hat]
  | prod p =>
    have hat : g2_unpack4 c a = some (.ok p) := hat
    simp only [Content.num, Content.take, part, hat]
    split_ifs <;> rfl
  | pack p =>
    have hat : g2_unpack5 c a = .ok p := hat
    simp only [Content.num, Content.take, part, hat]
    split_ifs <;> rfl
  | bitmap ibmap =>
    have hat : gbit c (a * 8 + 40) 8 = ibmap := hat
    simp [Content.num, Content.take, hat]
  | data => simp [Content.num, Content.take]

/-- `g2_getfld` goes over a message by its sections. -/
theorem getfld_layout (disc : Int) (k : Nat) (h : Layout c a cs b) (hend : sevens c b = true) (hlast : b + 4 = last)
    (hlt : b < 926365495) (g : Gribfield) :
    ∃ fuel, walk (getfldTurn c disc last k) fuel a g = some (some (decode disc k cs g)) := by
  induction h generalizing g with
  | nil a =>
    refine ⟨1, walk_out ?_⟩
    rw [getfldTurn, if_pos hend, if_neg (not_not.2 hlast)]
    rfl
  | @cons a b len content cs hpos hsolid rest ih =>
    obtain ⟨hlen, hnum, hat⟩ := hsolid.header
    have hle := rest.le
    have hmore : sevens c a = false := not_sevens (by omega)
    have hbounds : 1 ≤ content.num ∧ content.num ≤ 7 := by cases content <;> simp [Content.num]
    have hturn := getfldTurn_section disc k g hmore (by omega)
      (show a + lensec c a ≤ last by omega)
    rw [takeSection_content hnum hat] at hturn
    simp only at hturn
    rw [decode]
    by_cases hcomplete : (content.take disc k g).complete = true
    · rw [if_pos hcomplete] at hturn ⊢
      exact ⟨1, walk_out hturn⟩
    · rw [if_neg hcomplete] at hturn ⊢
      obtain ⟨fuel, hwalk⟩ := ih hend hlast hlt (content.take disc k g)
      exact ⟨fuel + 1, by rw [walk_on hturn, hlen, hwalk]⟩

/-- The sections as `g2_info` counts them. -/
theorem Layout.sections (h : Layout c a cs b) (hlt : b < 926365495) :
    ∃ secs, Sections c a secs b ∧ secs.map Sec.num = cs.map Content.num := by
  induction h with
  | nil a => exact ⟨[], .nil a, rfl⟩
  | @cons a b len content cs hpos hsolid rest ih =>
    obtain ⟨hlen, hnum, _⟩ := hsolid.header
    have hle := rest.le
    have hmore : sevens c a = false := not_sevens (by omega)
    obtain ⟨secs, hsecs, hnums⟩ := ih hlt
    rw [← hlen] at hsecs
    exact ⟨_, .cons hmore hsecs, by simp [hnum, hnums]⟩

end Reading

section Past
variable {disc : Int} {k : Nat} {g : Gribfield} {calls before after : List Call} {f : FieldSpec}
  {rest : List Content}

/-- What the calls so far leave for the next field: how many fields and local sections there are, the
last local section, the last grid, and the bitmap indicator of the field before. -/
structure Past where
  fields : Nat
  locals : Nat
  loc : Option (List UInt8)
  grid : Option Grid
  ibmap : Option Int

def Past.add (p : Past) : Call → Past
  | .loc csec2 => { p with locals := p.locals + 1, loc := some csec2 }
  | .grid g => { p with grid := some g }
  | .field f => { p with fields := p.fields + 1, ibmap := some f.ibmap }

def past (calls : List Call) : Past := calls.foldl Past.add ⟨0, 0, none, none, none⟩

/-- The field of `g2_getfld` before the product it is asked for. -/
def Past.field (p : Past) (ids : List Int) : Gribfield :=
  ⟨p.fields, none, some ids, p.loc.map (fun bytes => ((bytes.length : Int), bytes)), p.grid, none, none, p.ibmap⟩

theorem decode_incomplete {content : Content} (h : (content.take disc k g).prod = none) :
    decode disc k (content :: rest) g = decode disc k rest (content.take disc k g) := by
  rw [decode, if_neg (by simp [Gribfield.complete, h])]

/-- A call for another field leaves what it says for the next ones. -/
theorem decode_call {p : Past} {ids : List Int} {call : Call} (hfields : (p.add call).fields < k)
    (hpacked : ∀ f, call = .field f → ∃ packed, f.packed = .ok packed) :
    decode disc k (call.contents ++ rest) (p.field ids) = decode disc k rest ((p.add call).field ids) := by
  cases call with
  | loc csec2 => exact decode_incomplete rfl
  | grid grid => exact decode_incomplete rfl
  | field f =>
    obtain ⟨packed, hok⟩ := hpacked f rfl
    have hlt : p.fields + 1 < k := hfields
    have hprod : (Content.prod f.product).take disc k (p.field ids) =
        { p.field ids with numfld := p.fields + 1 } := by
      rw [Content.take, if_neg (by simp only [Past.field]; omega)]
      rfl
    have hpack : (Content.pack ⟨f.ndpts, f.idrsnum, packed.1⟩).take disc k
        { p.field ids with numfld := p.fields + 1 } = { p.field ids with numfld := p.fields + 1 } := by
      rw [Content.take, if_neg (by simp only; omega)]
    rw [Call.contents, hok]
    simp only [List.cons_append, List.nil_append]
    rw [decode_incomplete (by rw [hprod]; rfl), hprod, decode_incomplete (by rw [hpack]; rfl), hpack,
      decode_incomplete rfl, decode_incomplete rfl]
    rfl

theorem fields_le (p : Past) (calls : List Call) : p.fields ≤ (calls.foldl Past.add p).fields := by
  induction calls generalizing p with
  | nil => exact Nat.le_refl _
  | cons call calls ih =>
    have hone : p.fields ≤ (p.add call).fields := by cases call <;> simp [Past.add]
    exact Nat.le_trans hone (ih (p.add call))

theorem decode_calls (disc : Int) (p : Past) (ids : List Int) (rest : List Content)
    (hfields : (calls.foldl Past.add p).fields < k)
    (hpacked : ∀ f, .field f ∈ calls → ∃ packed, f.packed = .ok packed) :
    decode disc k (calls.flatMap Call.contents ++ rest) (p.field ids) =
      decode disc k rest ((calls.foldl Past.add p).field ids) := by
  induction calls generalizing p with
  | nil => rfl
  | cons call calls ih =>
    have hhere := fields_le (p.add call) calls
    rw [List.foldl_cons] at hfields
    rw [List.flatMap_cons, List.append_assoc, decode_call (by omega)
      (fun f hf => hpacked f (by rw [hf]; exact List.mem_cons_self)), List.foldl_cons]
    exact ih _ hfields (fun f hf => hpacked f (List.mem_cons_of_mem _ hf))

/-- The field that is asked for: all that is there behind its packing is the bitmap indicator of the
field before, if there is one. -/
theorem decode_field {p : Past} {ids : List Int} {grid : Grid} {packed : List Int × List UInt8}
    (hgrid : p.grid = some grid) (hok : f.packed = .ok packed) :
    decode disc (p.fields + 1) ((Call.field f).contents ++ rest) (p.field ids) =
      (0, {
        numfld := p.fields + 1
        discipline := some disc
        idsect := some ids
        loc := p.loc.map (fun bytes => ((bytes.length : Int), bytes))
        grid := some grid
        prod := some f.product
        pack := some ⟨f.ndpts, f.idrsnum, packed.1⟩
        ibmap := some (p.ibmap.getD f.ibmap) }) := by
  have hprod : (Content.prod f.product).take disc (p.fields + 1) (p.field ids) =
      { p.field ids with
        numfld := p.fields + 1
        discipline := some disc
        prod := some f.product } := by
    rw [Content.take, if_pos (by simp [Past.field])]
    rfl
  rw [Call.contents, hok]
  simp only [List.cons_append, List.nil_append]
  rw [decode, hprod, if_neg (by simp [Gribfield.complete, Past.field])]
  rw [decode, Content.take, if_pos rfl]
  cases hibmap : p.ibmap with
  | none =>
    rw [if_neg (by simp [Gribfield.complete, Past.field, hibmap]), decode, Content.take,
      if_pos (by simp [Gribfield.complete, Past.field, hgrid])]
    simp [Past.field, hgrid]
  | some ibmap =>
    rw [if_pos (by simp [Gribfield.complete, Past.field, hgrid, hibmap])]
    simp [Past.field, hgrid, hibmap]

theorem grid_stays (p : Past) (calls : List Call) (h : p.grid.isSome) : (calls.foldl Past.add p).grid.isSome := by
  induction calls generalizing p with
  | nil => exact h
  | cons call calls ih =>
    apply ih
    cases call with
    | loc => exact h
    | grid => rfl
    | field => exact h

/-- A grid that was seen is one that a call has added. -/
theorem grid_of_seen {seen : Seen} {p : Past}
    (h : ((calls.flatMap Call.contents).foldl Content.see seen).issec3 = true) :
    seen.issec3 = true ∨ (calls.foldl Past.add p).grid.isSome := by
  induction calls generalizing seen p with
  | nil => exact .inl h
  | cons call calls ih =>
    rw [List.flatMap_cons, List.foldl_append] at h
    cases call with
    | loc => exact ih h
    | grid g => exact .inr (grid_stays _ calls rfl)
    | field f =>
      have hsee : ((Call.field f).contents.foldl Content.see seen).issec3 = seen.issec3 := by
        rw [Call.contents]
        cases f.packed with
        | error => rfl
        | ok packed =>
          simp only [List.foldl_cons, List.foldl_nil, Content.see]
          split_ifs <;> rfl
      rw [← hsee]
      exact ih h

/-- The local sections and the fields, by the numbers of the sections. -/
theorem count_contents {p : Past} (hpacked : ∀ f, .field f ∈ calls → ∃ packed, f.packed = .ok packed) :
    p.locals + ((calls.flatMap Call.contents).map Content.num).count 2 = (calls.foldl Past.add p).locals ∧
      p.fields + ((calls.flatMap Call.contents).map Content.num).count 4 = (calls.foldl Past.add p).fields ∧
      ∀ n ∈ (calls.flatMap Call.contents).map Content.num, 2 ≤ n ∧ n ≤ 7 := by
  induction calls generalizing p with
  | nil => simp
  | cons call calls ih =>
    obtain ⟨hloc, hfield, hnums⟩ := ih (p := p.add call) (fun f hf => hpacked f (List.mem_cons_of_mem _ hf))
    rw [List.flatMap_cons, List.map_append, List.count_append, List.count_append, List.foldl_cons]
    cases call with
    | loc csec2 =>
      simp only [Past.add, Call.contents, List.map_cons, List.map_nil, Content.num] at hloc hfield ⊢
      refine ⟨by simp; omega, by simp; omega, ?_⟩
      intro n hn
      rcases List.mem_append.1 hn with hn | hn
      · simp at hn
        omega
      · exact hnums n hn
    | grid g =>
      simp only [Past.add, Call.contents, List.map_cons, List.map_nil, Content.num] at hloc hfield ⊢
      refine ⟨by simp; omega, by simp; omega, ?_⟩
      intro n hn
      rcases List.mem_append.1 hn with hn | hn
      · simp at hn
        omega
      · exact hnums n hn
    | field f =>
      obtain ⟨packed, hok⟩ := hpacked f List.mem_cons_self
      simp only [Past.add, Call.contents, hok, List.map_cons, List.map_nil, Content.num] at hloc hfield ⊢
      refine ⟨by simp; omega, by simp; omega, ?_⟩
      intro n hn
      rcases List.mem_append.1 hn with hn | hn
      · simp at hn
        omega
      · exact hnums n hn

end Past

section Whole
variable {c c' : Cgrib} {disc : Int} {len fuel : Nat} {cs : List Content} {content : Content}
  {listsec0 ids : List Int} {calls : List Call} {ret sz : Int}

/-- `g2_gribend` puts the end string behind the last section and the length of it all in front. -/
theorem gribend_composed (h : Composed c disc (cs ++ [content]) len) (hcall : g2_gribend fuel c = some (c', ret))
    (hpos : 0 < ret) (hlt : len < 926365491) :
    ret = (len + 4 : Nat) ∧ isGrib c' 0 = true ∧ gbit c' 48 8 = disc ∧ gbit c' 56 8 = 2 ∧
      lencurr c' = len + 4 ∧ Layout c' 16 (cs ++ [content]) len ∧ sevens c' len = true := by
  rw [g2_gribend, if_neg (by simp [h.grib])] at hcall
  cases hlast : lastSection fuel c with
  | none => simp [hlast] at hcall
  | some r =>
    obtain rfl := h.last hlast
    simp only [hlast, h.length] at hcall
    by_cases hseven : content.num ≠ 7
    · rw [if_pos hseven] at hcall
      simp only [Option.some.injEq, Prod.mk.injEq] at hcall
      omega
    rw [if_neg hseven] at hcall
    obtain ⟨rfl, hret⟩ := Prod.mk.inj (Option.some.inj hcall)
    have hle := h.layout.le
    have hstore := store_kept c len [55, 55, 55, 55]
    have hstored : sevens (store c len [55, 55, 55, 55]) len = true := by
      have hload := load_store c len [55, 55, 55, 55]
      rw [load_eq_iff] at hload
      simp only [sevens, decide_eq_true_eq]
      exact ⟨hload 0 (by decide), hload 1 (by decide), hload 2 (by decide), hload 3 (by decide)⟩
    generalize store c len [55, 55, 55, 55] = c1 at hstore hstored hret ⊢
    have hset := setLength_kept c1 (len + 4)
    have hfront : SameBits c (setLength c1 (len + 4)) 0 96 :=
      (hstore.same (.inl (by omega))).trans (hset.same (.inl (by omega)))
    refine ⟨by rw [← hret]; push_cast; rfl, ?_, ?_, ?_, lencurr_setLength c1 (by omega), ?_, ?_⟩
    · rw [← isGrib_same (hfront.mono (Nat.le_refl _) (by omega)), h.grib]
    · rw [← gbit_same hfront (by omega) (by omega), h.disc]
    · rw [← gbit_same hfront (by omega) (by omega), h.edition]
    · exact h.layout.same ((hstore.same (.inl (Nat.le_refl _))).trans (hset.same (.inr (by omega))))
    · rw [sevens_iff] at hstored ⊢
      rw [← hstored, lensec, lensec, gbit_kept hset (by omega)]

/-- A message as it is put together: `g2_create` over any buffer, then calls that all succeed, while the
message is shorter than `"7777"` spells. -/
inductive Built (listsec0 ids : List Int) : List Call → Cgrib → Prop
  | create {c c' : Cgrib} {ret : Int} (h : g2_create c listsec0 ids = (c', ret)) (hpos : 0 < ret) :
      Built listsec0 ids [] c'
  | call {calls : List Call} {call : Call} {c c' : Cgrib} {fuel : Nat} {ret : Int} (hb : Built listsec0 ids calls c)
      (h : call.perform fuel c = some (c', ret)) (hpos : 0 < ret) (hlt : ret < 926365491) :
      Built listsec0 ids (calls ++ [call]) c'

/-- What a run of calls has made of the buffer. -/
structure WellBuilt (listsec0 ids : List Int) (calls : List Call) (c : Cgrib) (len : Nat) : Prop where
  composed : Composed c (listsec0.getD 0 0) (.ident ids :: calls.flatMap Call.contents) len
  short : len < 926365491
  packed : ∀ f, .field f ∈ calls → ∃ packed, f.packed = .ok packed
  grid : ∀ before f after, calls = before ++ .field f :: after → (past before).grid.isSome

theorem WellBuilt.call {call : Call} (h : WellBuilt listsec0 ids calls c len) (hfits : call.Fits)
    (hcall : call.perform fuel c = some (c', ret)) (hpos : 0 < ret) (hlt : ret < 926365491) :
    WellBuilt listsec0 ids (calls ++ [call]) c' ret.toNat := by
  obtain ⟨cs, content, hlast⟩ : ∃ cs content, Content.ident ids :: calls.flatMap Call.contents = cs ++ [content] :=
    (List.eq_nil_or_concat' _).resolve_left (by simp)
  have hcomposed := h.composed
  rw [hlast] at hcomposed
  have hflat : Content.ident ids :: (calls ++ [call]).flatMap Call.contents = cs ++ [content] ++ call.contents := by
    rw [← hlast]
    simp
  -- a field is only added where there is a grid, and it is then packed
  have hfield : Composed c' (listsec0.getD 0 0) (cs ++ [content] ++ call.contents) ret.toNat ∧
      ∀ f, call = .field f → (past calls).grid.isSome ∧ ∃ packed, f.packed = .ok packed := by
    cases call with
    | loc csec2 =>
      exact ⟨addlocal_composed hcomposed hcall hpos (by omega), fun f hf => by cases hf⟩
    | grid g =>
      exact ⟨addgrid_composed hcomposed hfits hcall hpos (by omega), fun f hf => by cases hf⟩
    | field f =>
      obtain ⟨hcomposed', hseen, hpacked⟩ := addfield_composed hcomposed hfits hcall hpos (by omega)
      refine ⟨hcomposed', ?_⟩
      intro f' hf'
      cases hf'
      rw [← hlast] at hseen
      have hgrid := grid_of_seen (p := ⟨0, 0, none, none, none⟩) hseen
      exact ⟨hgrid.resolve_left (by simp [Content.see]), hpacked⟩
  refine ⟨by rw [hflat]; exact hfield.1, by omega, ?_, ?_⟩
  · intro f hf
    rcases List.mem_append.1 hf with hf | hf
    · exact h.packed f hf
    · exact (hfield.2 f (List.mem_singleton.1 hf).symm).2
  · intro before f after heq
    rcases List.eq_nil_or_concat' after with rfl | ⟨after, last, rfl⟩
    · have hsplit := List.append_inj' heq rfl
      rw [← hsplit.1]
      exact (hfield.2 f (List.singleton_inj.1 hsplit.2)).1
    · have hassoc : before ++ .field f :: (after ++ [last]) = (before ++ .field f :: after) ++ [last] := by simp
      rw [hassoc] at heq
      exact h.grid before f after (List.append_inj' heq rfl).1

theorem Built.wellBuilt (hb : Built listsec0 ids calls c)
    (hdisc : 0 ≤ listsec0.getD 0 0 ∧ listsec0.getD 0 0 < 256) (hids : IdentFits ids)
    (hfits : ∀ call ∈ calls, call.Fits) : ∃ len, WellBuilt listsec0 ids calls c len := by
  induction hb with
  | create h hpos =>
    refine ⟨37, create_composed hdisc hids h hpos, by decide, by simp, ?_⟩
    intro before f after heq
    simp at heq
  | @call calls call c c' fuel ret _ h hpos hlt ih =>
    obtain ⟨len, hlen⟩ := ih (fun call' h' => hfits call' (List.mem_append_left _ h'))
    exact ⟨ret.toNat, hlen.call (hfits call (by simp)) h hpos hlt⟩

/-- A message that was put together is taken apart again. `g2_info` accepts it, with its indicator, its
identification, and the number of its local sections and fields. `g2_getfld` finds every field, with the
product and the packing it was added with, the last grid and the last local section before it; but its
bitmap indicator is that of the field before it, unless it is the first. -/
theorem g2_roundtrip (hb : Built listsec0 ids calls c) (hend : g2_gribend fuel c = some (c', ret)) (hpos : 0 < ret)
    (hdisc : 0 ≤ listsec0.getD 0 0 ∧ listsec0.getD 0 0 < 256) (hids : IdentFits ids)
    (hfits : ∀ call ∈ calls, call.Fits) (hsz : ret ≤ sz + 1) :
    (∃ n, g2_info n c' sz =
        some ⟨[listsec0.getD 0 0, 2, ret], ids, ⟨(past calls).locals, (past calls).fields⟩, 0⟩) ∧
      ∀ before f after, calls = before ++ .field f :: after →
        ∃ n grid packed, (past before).grid = some grid ∧ f.packed = .ok packed ∧
          g2_getfld n c' ((past before).fields + 1 : Nat) = some (0,
            { numfld := (past before).fields + 1
              discipline := some (listsec0.getD 0 0)
              idsect := some ids
              loc := (past before).loc.map (fun bytes => ((bytes.length : Int), bytes))
              grid := some grid
              prod := some f.product
              pack := some ⟨f.ndpts, f.idrsnum, packed.1⟩
              ibmap := some ((past before).ibmap.getD f.ibmap) }) := by
  obtain ⟨len, hbuilt⟩ := hb.wellBuilt hdisc hids hfits
  have hcomposed := hbuilt.composed
  obtain ⟨cs, content, hlast⟩ : ∃ cs content, Content.ident ids :: calls.flatMap Call.contents = cs ++ [content] :=
    (List.eq_nil_or_concat' _).resolve_left (by simp)
  rw [hlast] at hcomposed
  obtain ⟨rfl, hgrib, hd, hedition, hlencurr, hlayout, hsevens⟩ := gribend_composed hcomposed hend hpos hbuilt.short
  rw [← hlast] at hlayout
  have hshort := hbuilt.short
  have hstart : istart c' = some 0 := by
    rw [istart, List.find?_range_eq_some]
    exact ⟨hgrib, by simp, by simp⟩
  have hlength : (gbit c' (8 * (0 + 12)) 32).toNat = len + 4 := hlencurr
  constructor
  · cases hlayout with
    | @cons _ _ first _ _ hfirst hsolid rest =>
      obtain ⟨hlensec, hnum, hat⟩ := hsolid.header
      obtain ⟨secs, hsecs, hnums⟩ := rest.sections (by omega)
      obtain ⟨hlocals, hfields, hsevenless⟩ := count_contents (p := ⟨0, 0, none, none, none⟩) hbuilt.packed
      rw [← hnums] at hlocals hfields hsevenless
      have hids' : unpackMap c' (8 * (0 + 21)) mapsec1 = ids := by
        have hat : g2_unpack1 c' 16 = .ok ids := hat
        rw [g2_unpack1, if_neg (by simp [hnum, Content.num])] at hat
        exact Except.ok.inj hat
      have hmessage : Message c' 0 (len + 4) secs :=
        { indicator := hstart
          length := hlength.symm
          edition := hedition
          identification := hnum
          sections := ⟨len, by rw [Nat.zero_add, hlensec]; exact hsecs, hsevens, by omega⟩
          numbers := fun s hs => hsevenless s.num (List.mem_map_of_mem hs) }
      have hcount : ∀ n, occurrences n secs = (secs.map Sec.num).count n := by
        intro n
        rw [List.count_eq_countP, List.countP_map, occurrences]
        rfl
      have hd : gbit c' (8 * (0 + 6)) 8 = listsec0.getD 0 0 := hd
      obtain ⟨n, hinfo⟩ := message_accepted hmessage (show ((0 : Nat) + (len + 4 : Nat) : Int) ≤ sz + 1 by simpa using hsz)
      refine ⟨n, ?_⟩
      rw [hinfo, hids', hd, hcount, hcount, past, ← hlocals, ← hfields]
      simp
  · intro before f after heq
    obtain ⟨grid, hgrid⟩ := Option.isSome_iff_exists.1 (hbuilt.grid before f after heq)
    obtain ⟨packed, hok⟩ := hbuilt.packed f (by rw [heq]; simp)
    have hpackeds : ∀ f', .field f' ∈ before → ∃ packed, f'.packed = .ok packed :=
      fun f' hf' => hbuilt.packed f' (by rw [heq]; exact List.mem_append_left _ hf')
    obtain ⟨n, hwalk⟩ := getfld_layout (listsec0.getD 0 0) ((past before).fields + 1) hlayout
      hsevens rfl (by omega) .init
    refine ⟨n, grid, packed, hgrid, hok, ?_⟩
    have hd : gbit c' (8 * (0 + 6)) 8 = listsec0.getD 0 0 := hd
    have hedition : gbit c' (8 * (0 + 7)) 8 = 2 := hedition
    rw [g2_getfld, if_neg (by omega), hstart]
    simp only [hd, hedition, hlength]
    rw [if_neg (by simp), Int.toNat_natCast, Nat.zero_add, Nat.zero_add, hwalk, decode_incomplete rfl]
    have hident : (Content.ident ids).take (listsec0.getD 0 0) ((past before).fields + 1) .init =
        Past.field ⟨0, 0, none, none, none⟩ ids := rfl
    have hskip := decode_calls (listsec0.getD 0 0) ⟨0, 0, none, none, none⟩ ids
      ((Call.field f).contents ++ after.flatMap Call.contents)
      (Nat.lt_succ_self (past before).fields) hpackeds
    rw [hident, heq, List.flatMap_append, List.flatMap_cons, hskip]
    exact congrArg some (decode_field hgrid hok)

/-- Calls that are made one after the other as long as they succeed. -/
def build (fuel : Nat) (c : Cgrib) : List Call → Option Cgrib
  | [] => some c
  | call :: calls =>
    match call.perform fuel c with
    | none => none
    | some r => if 0 < r.2 ∧ r.2 < 926365491 then build fuel r.1 calls else none

theorem Built.build {before : List Call} (hb : Built listsec0 ids before c) (h : build fuel c calls = some c') :
    Built listsec0 ids (before ++ calls) c' := by
  induction calls generalizing before c with
  | nil =>
    simp only [G2.build, Option.some.injEq] at h
    rwa [List.append_nil, ← h]
  | cons call calls ih =>
    rw [G2.build] at h
    cases hcall : call.perform fuel c with
    | none => simp [hcall] at h
    | some r =>
      simp only [hcall] at h
      split_ifs at h with hret
      have hnext := ih (hb.call hcall hret.1 hret.2) h
      rwa [List.append_assoc] at hnext

/-- Two fields on a small grid, the second with a bitmap, behind a local section. -/
def someGrid : Grid := ⟨0, 6, 0, 0, 50, [2, 2, 2, 1, 1], []⟩

def someField (ibmap : Int) (template : List Int) : FieldSpec :=
  ⟨254, template, [], 0, 6, ibmap, [1, 0, 1, 1, 0, 1], .ok ([5, -3, 0, 8, 0], [9, 9])⟩

def someCalls : List Call :=
  [.loc [1, 2, 3], .grid someGrid, .field (someField 255 [1, 2, 3]), .field (someField 0 [4, 5, 6])]

def someIds : List Int := [7, 0, 2, 1, 1, 2026, 5, 6, 12, 0, 0, 0, 1]

theorem someGrid_fits : someGrid.Fits := by
  have hgrid : getgridtemplate 50 = some ⟨50, [4, 4, 4, 1, 1], false, 0, []⟩ := by decide
  refine ⟨by decide, by decide, by decide, ?_, fun _ => rfl, fun h => absurd rfl h⟩
  intro t ht
  cases hgrid.symm.trans ht
  refine ⟨?_, by simp⟩
  exact .cons (by decide) (.cons (by decide) (.cons (by decide) (.cons (by decide) (.cons (by decide) .nil))))

theorem someField_fits {ibmap x y z : Int} (hi : 0 ≤ ibmap ∧ ibmap < 256) (hx : 0 ≤ x ∧ x < 256)
    (hy : 0 ≤ y ∧ y < 256) (hz : 0 ≤ z ∧ z < 256) : (someField ibmap [x, y, z]).Fits := by
  have hpds : getpdstemplate 254 = some ⟨254, [1, 1, 4], false, 0, []⟩ := by decide
  have hdrs : getdrstemplate 0 = some ⟨0, [4, -2, -2, 1, 1], false, 0, []⟩ := by decide
  refine ⟨?_, by simp [someField], by simp [someField], by simp [someField], hi, ?_, by simp [someField]⟩
  · intro t ht
    cases hpds.symm.trans ht
    refine ⟨?_, by simp⟩
    simp only [mapOf, someField, Bool.false_eq_true, if_false]
    refine .cons ?_ (.cons ?_ (.cons ?_ .nil)) <;> simp only [Fits] <;> norm_num <;> omega
  · intro t packed ht hpacked
    cases hdrs.symm.trans ht
    cases hpacked
    refine ⟨?_, by simp⟩
    exact .cons (by decide) (.cons (by decide) (.cons (by decide) (.cons (by decide) (.cons (by decide) .nil))))

theorem g2_roundtrip_run : ∃ c c', Built [0, 2] someIds someCalls c ∧ g2_gribend 20 c = some (c', 176) ∧
    (∃ n, g2_info n c' 175 = some ⟨[0, 2, 176], someIds, ⟨1, 2⟩, 0⟩) ∧
    ∃ n, g2_getfld n c' 2 = some (0,
      { numfld := 2
        discipline := some 0
        idsect := some someIds
        loc := some (3, [1, 2, 3])
        grid := some someGrid
        prod := some ⟨254, [4, 5, 6], []⟩
        pack := some ⟨4, 0, [5, -3, 0, 8, 0]⟩
        ibmap := some 255 }) := by
  have hrun : ((build 20 (g2_create (fun _ => 0) [0, 2] someIds).1 someCalls).bind
      (g2_gribend 20)).map Prod.snd = some 176 := by decide +kernel
  obtain ⟨r, hr, hret⟩ := Option.map_eq_some_iff.1 hrun
  obtain ⟨c, hbuild, hend⟩ := Option.bind_eq_some_iff.1 hr
  have hcreate : (g2_create (fun _ => 0) [0, 2] someIds).2 = 37 := by decide
  have hstart : Built [0, 2] someIds [] (g2_create (fun _ => 0) [0, 2] someIds).1 :=
    .create (Prod.ext rfl hcreate) (by decide)
  have hbuilt : Built [0, 2] someIds ([] ++ someCalls) c := hstart.build hbuild
  have hend : g2_gribend 20 c = some (r.1, 176) := by rw [hend, ← hret]
  have hids : IdentFits someIds := by
    unfold IdentFits
    decide
  have hfits : ∀ call ∈ someCalls, call.Fits := by
    intro call hcall
    simp only [someCalls, List.mem_cons, List.not_mem_nil, or_false] at hcall
    rcases hcall with rfl | rfl | rfl | rfl
    · trivial
    · exact someGrid_fits
    · exact someField_fits (by decide) (by decide) (by decide) (by decide)
    · exact someField_fits (by decide) (by decide) (by decide) (by decide)
  obtain ⟨hinfo, hfield⟩ := g2_roundtrip hbuilt hend (by decide) (by decide) hids hfits
    (by decide : (176 : Int) ≤ 175 + 1)
  refine ⟨c, r.1, hbuilt, hend, hinfo, ?_⟩
  obtain ⟨n, grid, packed, hgrid, hpacked, hfound⟩ :=
    hfield [.loc [1, 2, 3], .grid someGrid, .field (someField 255 [1, 2, 3])] (someField 0 [4, 5, 6]) [] rfl
  cases hgrid
  cases hpacked
  exact ⟨n, hfound⟩

end Whole
end Noaaport.G2
