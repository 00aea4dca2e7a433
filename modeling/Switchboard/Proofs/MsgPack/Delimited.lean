import Switchboard.Proofs.MsgPack.Integer
import Switchboard.Proofs.MsgPack.RoundTrip

namespace Switchboard.MsgPack

-- What the first reader takes, the second takes off every longer input, and leaves what was added.
def Carries {α : Type} (short long : Reader α) : Prop :=
  ∀ bs x rest, short bs = some (x,rest) → ∀ more, long (bs ++ more) = some (x,rest ++ more)

section Readers

variable {α β : Type} {short long : Reader α}

theorem take_carries (count : Nat) : Carries (take count) (take count) := by
  intro bs taken rest read more
  obtain ⟨length,rfl⟩ := take_exact.mp read
  exact take_exact.mpr ⟨length,List.append_assoc taken rest more⟩

theorem nothing_carries (long : Reader α) : Carries (fun _ => none) long := by
  intro bs x rest read
  cases read

theorem map_carries (f : α → β) (carries : Carries short long) :
    Carries (fun bs => (short bs).map (fun pair => (f pair.1,pair.2)))
      (fun bs => (long bs).map (fun pair => (f pair.1,pair.2))) := by
  intro bs y rest read more
  obtain ⟨pair,found,same⟩ := Option.map_eq_some_iff.mp read
  cases same
  dsimp only
  rw [carries bs pair.1 pair.2 found more,Option.map_some]

theorem many_carries (carries : Carries short long) (count : Nat) : Carries (many short count) (many long count) := by
  induction count with
  | zero =>
      intro bs xs rest read more
      cases read
      rfl
  | succ count ih =>
      intro bs xs rest read more
      simp only [many,Option.bind_eq_bind,Option.bind_eq_some_iff] at read
      obtain ⟨⟨x,middle⟩,first,⟨ys,after⟩,others,same⟩ := read
      cases same
      simp only [many,carries _ _ _ first more,ih _ _ _ others more,Option.bind_eq_bind,Option.bind_some]
      rfl

theorem entry_carries {short long : Reader Node} (carries : Carries short long) :
    Carries (entry short) (entry long) := by
  intro bs pair rest read more
  simp only [entry,Option.bind_eq_bind,Option.bind_eq_some_iff] at read
  obtain ⟨⟨key,middle⟩,first,⟨value,after⟩,second,same⟩ := read
  cases same
  simp only [entry,carries _ _ _ first more,carries _ _ _ second more,Option.bind_eq_bind,Option.bind_some]
  rfl

end Readers

theorem natural_carries (width : Nat) : Carries (natural width) (natural width) :=
  map_carries ofBigEndian (take_carries width)

theorem constant_carries (head : Head) : Carries (fun bs => some (head,bs)) (fun bs => some (head,bs)) := by
  intro bs x rest read more
  cases read
  rfl

theorem sized_carries (announce : Nat → Head) (width : Nat) :
    Carries (Head.sized announce width) (Head.sized announce width) :=
  map_carries announce (natural_carries width)

theorem signed_carries (width : Nat) : Carries (signed width) (signed width) := by
  intro bs n rest read more
  obtain ⟨taken,length,rfl,value⟩ := signed_exact.mp read
  exact signed_exact.mpr ⟨taken,length,List.append_assoc taken rest more,value⟩

theorem float_carries (f : Format) : Carries (Head.float f) (Head.float f) :=
  map_carries (fun n => Head.whole (.float f ⟨BitVec.ofNat f.width n⟩)) (natural_carries f.octets)

theorem marker_carries (marker : Nat) : Carries (Head.ofMarker marker) (Head.ofMarker marker) := by
  unfold Head.ofMarker
  split
  all_goals first
    | exact constant_carries _
    | exact sized_carries _ _
    | exact map_carries (fun n => Head.whole (.signed n)) (signed_carries _)
    | exact float_carries _
    | exact nothing_carries _

theorem head_carries : Carries head head := by
  intro bs x rest read more
  cases bs with
  | nil => cases read
  | cons b bs =>
      rw [head] at read
      rw [List.cons_append,head]
      iterate 4
        split at read
        · rename_i range
          cases read
          rw [if_pos range]
        rename_i beyond
        rw [if_neg beyond]
      split at read
      · rename_i range
        rw [if_pos range]
        exact marker_carries _ _ _ _ read more
      · rename_i beyond
        cases read
        rw [if_neg beyond]

-- A longer input comes with more depth, so depth and input grow together.
theorem node_carries {depth deeper : Nat} (enough : depth ≤ deeper) : Carries (node depth) (node deeper) := by
  induction depth generalizing deeper with
  | zero => exact nothing_carries _
  | succ depth ih =>
      intro bs x rest read more
      obtain ⟨inner,rfl⟩ := Nat.exists_eq_add_of_le' (Nat.le_trans (Nat.le_add_left 1 depth) enough)
      have children := ih (Nat.le_of_succ_le_succ enough)
      simp only [node,Option.bind_eq_bind,Option.bind_eq_some_iff] at read
      obtain ⟨⟨announced,after⟩,found,shaped⟩ := read
      simp only [node,head_carries _ _ _ found more,Option.bind_eq_bind,Option.bind_some]
      cases announced with
      | whole y => cases shaped; rfl
      | str length => exact map_carries Node.str (take_carries length) _ _ _ shaped more
      | bin length => exact map_carries Node.bin (take_carries length) _ _ _ shaped more
      | array count => exact map_carries Node.array (many_carries children count) _ _ _ shaped more
      | map count => exact map_carries Node.map (many_carries (entry_carries children) count) _ _ _ shaped more
      | ext length =>
          cases after with
          | nil => cases shaped
          | cons tag after => exact map_carries (Node.ext tag) (take_carries length) _ _ _ shaped more

theorem parse_carries : Carries parse parse := by
  intro bs x rest read more
  have longer : bs.length + 1 ≤ (bs ++ more).length + 1 := by
    rw [List.length_append]
    omega
  exact node_carries longer bs x rest read more

theorem decode_followed {t : Ty} {body : List UInt8} {w : t.Value} (decoded : decode t body = some w)
    (more : List UInt8) : decode t (body ++ more) = some w := by
  obtain ⟨⟨x,rest⟩,parsed,typed⟩ := Option.bind_eq_some_iff.mp decoded
  rw [decode,parse_carries body x rest parsed more]
  exact typed

-- If the front were a whole value, the whole body would be that value with bytes left over.
theorem parse_cut {n : Node} (fits : n.Fits) {front : List UInt8} (cut : front <+: n.render)
    (shorter : front ≠ n.render) : parse front = none := by
  obtain ⟨lost,whole⟩ := cut
  have complete := parse_render fits []
  rw [List.append_nil,← whole] at complete
  cases read : parse front with
  | none => rfl
  | some pair =>
      have longer := parse_carries front pair.1 pair.2 read lost
      rw [complete] at longer
      have empty : pair.2 ++ lost = [] := (Prod.mk.inj (Option.some.inj longer)).2.symm
      have nothing := (List.append_eq_nil_iff.mp empty).2
      rw [nothing,List.append_nil] at whole
      exact absurd whole shorter

theorem msgPack_delimited_exact :
    (∀ (t : Ty) (v : t.Value), Sized t v → ∀ p, Serializer.msgPack.toPayload t v = .ok p →
      ∀ q : Payload, (∀ given, q.contentType = some given → Serializer.msgPack.accepts given = true) →
        (q.body <+: p.body → q.body ≠ p.body →
          Serializer.msgPack.fromPayload t q = .error (.decode applicationMsgPack .codec)) ∧
        (t.isFaithful = true → t.nesting brackets v ≤ depthLimit → p.body <+: q.body →
          Serializer.msgPack.fromPayload t q = .ok v)) ∧
    ∀ (t : Ty) (p : Payload) (w : t.Value), Serializer.msgPack.fromPayload t p = .ok w →
      ∀ more, Serializer.msgPack.fromPayload t { p with body := p.body ++ more } = .ok w := by
  refine ⟨?_,?_⟩
  · intro t v sized p written q taken
    obtain ⟨body,encoded,rfl⟩ := Serializer.wrapped_ok.mp written
    obtain ⟨node,wrote,rfl⟩ := Option.map_eq_some_iff.mp encoded
    refine ⟨?_,?_⟩
    · intro cut shorter
      have lost := parse_cut (write_fits t v sized wrote) cut shorter
      rw [Serializer.msgPack_taken taken,decode,lost]
      rfl
    · intro faithful nested whole
      obtain ⟨more,followed⟩ := whole
      have back := decode_followed (decode_encode faithful sized nested encoded) more
      have same : node.render ++ more = q.body := followed
      rw [same] at back
      exact Serializer.msgPack_ok.mpr ⟨taken,back⟩
  · intro t p w read more
    obtain ⟨taken,decoded⟩ := Serializer.msgPack_ok.mp read
    exact Serializer.msgPack_ok.mpr ⟨taken,decode_followed decoded more⟩

def stocked : (Catalogue.textMap (.list Catalogue.i64)).Value :=
  SortedMap.empty.insert "k" [⟨-0x22,by decide⟩,⟨0x100,by decide⟩]

-- Cut in the middle of the last number, and followed by a byte that begins no value.
theorem msgPack_cut_map_refused_trailing_byte_ignored :
    Serializer.msgPack.toPayload (Catalogue.textMap (.list Catalogue.i64)) stocked =
      .ok (.typed applicationMsgPack [0x81,0xa1,0x6b,0x92,0xd0,0xde,0xcd,0x01,0x00]) ∧
    Serializer.msgPack.fromPayload (Catalogue.textMap (.list Catalogue.i64))
      (.untyped [0x81,0xa1,0x6b,0x92,0xd0,0xde,0xcd,0x01]) = .error (.decode applicationMsgPack .codec) ∧
    Serializer.msgPack.fromPayload (Catalogue.textMap (.list Catalogue.i64))
      (.untyped [0x81,0xa1,0x6b,0x92,0xd0,0xde,0xcd,0x01,0x00,0xc1]) = .ok stocked ∧
    Serializer.msgPack.fromPayload .bool (.untyped [0xc3,0xc1]) = .ok true := by
  have written : Serializer.msgPack.toPayload (Catalogue.textMap (.list Catalogue.i64)) stocked =
      .ok (.typed applicationMsgPack [0x81,0xa1,0x6b,0x92,0xd0,0xde,0xcd,0x01,0x00]) := by rfl
  have sized : Sized (Catalogue.textMap (.list Catalogue.i64)) stocked := by
    simp only [Sized,Catalogue.textMap,Catalogue.i64,stocked,Ty.Throughout,ShortValue,ShortKey,ShortText]
    decide
  have carried := msgPack_delimited_exact.1 _ stocked sized _ written
  refine ⟨written,?_,?_,?_⟩
  · exact (carried (.untyped _) (fun _ typed => by cases typed)).1 ⟨[0x00],rfl⟩ (by simp [Payload.untyped,Payload.typed])
  · exact (carried (.untyped _) (fun _ typed => by cases typed)).2 (by decide) (by decide) ⟨[0xc1],rfl⟩
  · exact msgPack_delimited_exact.2 .bool (.untyped [0xc3]) true rfl [0xc1]

end Switchboard.MsgPack
