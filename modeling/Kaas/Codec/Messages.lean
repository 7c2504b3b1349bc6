import Kaas.Codec.OffsetFetch
import Kaas.Codec.CreateTopics
import Kaas.Codec.DescribeLogDirs

namespace Kaas.Codec

/-- The encoding succeeds, and with anything behind it it is read back as `y` with just that
left. -/
def ReadBack {α : Type} (encode : Wire) (decode : Read α) (y : α) : Prop :=
  ∃bytes,encode=.ok bytes ∧ ∀rest,decode (bytes++rest)=.ok (y,rest)

/-- Requests and responses are read back as what their version can say of them. -/
theorem messages_read_back (version : Nat) : (∀req : OffsetFetch.Request,req.Fits version →
      ReadBack (OffsetFetch.encodeRequest version req) (OffsetFetch.decodeRequest version) (req.at version)) ∧
    (∀resp : OffsetFetch.Response,resp.Fits version →
      ReadBack (OffsetFetch.encodeResponse version resp) (OffsetFetch.decodeResponse version)
        (resp.at version)) ∧
    (∀req : CreateTopics.Request,req.Fits version →
      ReadBack (CreateTopics.encodeRequest version req) (CreateTopics.decodeRequest version) (req.at version)) ∧
    (∀resp : CreateTopics.Response,resp.Fits version →
      ReadBack (CreateTopics.encodeResponse version resp) (CreateTopics.decodeResponse version)
        (resp.at version)) ∧
    (∀req : DescribeLogDirs.Request,req.Fits version →
      ReadBack (DescribeLogDirs.encodeRequest version req) (DescribeLogDirs.decodeRequest version) req) ∧
    (∀resp : DescribeLogDirs.Response,resp.Fits version →
      ReadBack (DescribeLogDirs.encodeResponse version resp)
        (DescribeLogDirs.decodeResponse version) (resp.at version)) :=
  ⟨fun _ => OffsetFetch.writes_request,fun _ => OffsetFetch.writes_response,
    fun _ => CreateTopics.writes_request,
    fun _ => CreateTopics.writes_response,fun _ => DescribeLogDirs.writes_request,fun _ =>
      DescribeLogDirs.writes_response⟩

/-- A topic with two partitions, one with metadata and one without. -/
def twoOffsets : OffsetFetch.Response :=
  {throttleTimeMs := 3,topics := [⟨"orders",[⟨0,7,2,some "m",0⟩,⟨1,-1,-1,none,3⟩]⟩],errorCode := 0,groups := []}

theorem twoOffsets_fits {version : Nat} (h : version<8) : twoOffsets.Fits version := by
  have hstr : ∀flex,FitsStr flex "orders" ∧ FitsStr flex "m" := by decide
  have hlen : ∀flex,∀n≤2,Codec.Fits flex 32 n := by decide
  have hpart : ∀flex,∀p∈[(⟨0,7,2,some "m",0⟩ : OffsetFetch.PartitionResponse),⟨1,-1,-1,none,3⟩],
      ∀s∈p.metadata,FitsStr flex s := by decide
  rw [OffsetFetch.Response.Fits,if_neg (by omega)]
  refine ⟨hlen _ 1 (by decide),?_⟩
  rintro t ht
  obtain rfl := List.mem_singleton.mp ht
  exact ⟨(hstr _).1,hlen _ 2 le_rfl,hpart _⟩

theorem messages_read_back_nested :
    ReadBack (OffsetFetch.encodeRequest 8 {groupId := "g",requireStable := true})
        (OffsetFetch.decodeRequest 8) {requireStable := true} ∧
      ReadBack (OffsetFetch.encodeResponse 6 twoOffsets) (OffsetFetch.decodeResponse 6) (twoOffsets.at 6) ∧
      ReadBack (OffsetFetch.encodeResponse 2 twoOffsets) (OffsetFetch.decodeResponse 2)
        {topics := [⟨"orders",[⟨0,7,-1,some "m",0⟩,⟨1,-1,-1,none,3⟩]⟩]} :=
  ⟨(messages_read_back 8).1 {groupId := "g",requireStable := true} ⟨by decide,nofun⟩,
    (messages_read_back 6).2.1 twoOffsets (twoOffsets_fits (by decide)),
    (messages_read_back 2).2.1 twoOffsets (twoOffsets_fits (by decide))⟩

end Kaas.Codec
