import Nanofish.Client

/-! Both directions write through `write_all` and `flush`: what the stream has taken
afterwards is a front of the message, and all of it when no write failed. -/
namespace Nanofish.Sending
open Rust Rust.Utf8 Rust.Reads
open Client

section Writer
variable (stream : Stream) (clear : ∀ w ∈ stream.writes, w = .accept)
include clear

theorem writeAllClear (data : Bytes) :
    ∃ rest, (∀ w ∈ rest, w = .accept) ∧
    stream.writeAll data = (true,⟨stream.reads,rest,stream.written ++ data⟩) := by
  obtain ⟨reads,writes,written⟩ := stream
  cases writes with
  | nil => exact ⟨[],by simp,rfl⟩
  | cons w rest =>
    obtain rfl := clear w List.mem_cons_self
    exact ⟨rest,fun v mem => clear v (List.mem_cons_of_mem _ mem),rfl⟩

theorem flushClear : ∃ rest, stream.flush = (true,⟨stream.reads,rest,stream.written⟩) := by
  obtain ⟨reads,writes,written⟩ := stream
  cases writes with
  | nil => exact ⟨[],rfl⟩
  | cons w rest =>
    obtain rfl := clear w List.mem_cons_self
    exact ⟨rest,rfl⟩

theorem sendClear (head : Bytes) (body : Option Bytes) :
    ∃ rest, send stream head body =
      (true,⟨stream.reads,rest,stream.written ++ head ++ body.getD []⟩) := by
  obtain ⟨more,later,wrote⟩ := writeAllClear stream clear head
  unfold send
  rw [wrote]
  cases body with
  | none =>
    obtain ⟨rest,flushed⟩ := flushClear ⟨stream.reads,more,stream.written ++ head⟩ later
    exact ⟨rest,by simp only [flushed, Option.getD_none, List.append_nil]⟩
  | some data =>
    obtain ⟨last,still,wrote⟩ := writeAllClear ⟨stream.reads,more,stream.written ++ head⟩ later data
    obtain ⟨rest,flushed⟩ := flushClear ⟨stream.reads,last,stream.written ++ head ++ data⟩ still
    exact ⟨rest,by simp only [wrote, flushed, Option.getD_some]⟩

end Writer

theorem writeAllScript (s : Stream) (data : Bytes) (reads : List (ReadEvent UInt8)) :
    ({ s with reads := reads } : Stream).writeAll data =
      ((s.writeAll data).1,{ (s.writeAll data).2 with reads := reads }) := by
  obtain ⟨_,writes,_⟩ := s
  rcases writes with _ | ⟨_ | _,_⟩ <;> rfl

theorem flushScript (s : Stream) (reads : List (ReadEvent UInt8)) :
    ({ s with reads := reads } : Stream).flush = (s.flush.1,{ s.flush.2 with reads := reads }) := by
  obtain ⟨_,writes,_⟩ := s
  rcases writes with _ | ⟨_ | _,_⟩ <;> rfl

theorem sendScript (s : Stream) (head : Bytes) (body : Option Bytes) (reads : List (ReadEvent UInt8)) :
    send { s with reads := reads } head body =
      ((send s head body).1,{ (send s head body).2 with reads := reads }) := by
  unfold send
  rw [writeAllScript]
  rcases s.writeAll head with ⟨_ | _,u⟩
  · rfl
  · cases body with
    | none => exact flushScript u reads
    | some data =>
      simp only [writeAllScript]
      rcases u.writeAll data with ⟨_ | _,v⟩
      · rfl
      · exact flushScript v reads

theorem writeAllFront (s : Stream) (data : Bytes) : ∃ part, part <+: data ∧
    (s.writeAll data).2.written = s.written ++ part ∧ ((s.writeAll data).1 = true → part = data) := by
  obtain ⟨reads,writes,written⟩ := s
  rcases writes with _ | ⟨_ | sent,rest⟩
  · exact ⟨data,List.prefix_refl data,rfl,fun _ => rfl⟩
  · exact ⟨data,List.prefix_refl data,rfl,fun _ => rfl⟩
  · exact ⟨data.take sent,List.take_prefix sent data,rfl,fun done => by contradiction⟩

theorem flushWritten (s : Stream) : s.flush.2.written = s.written := by
  unfold Stream.flush
  split <;> rfl

theorem sendFront (s : Stream) (head : Bytes) (body : Option Bytes) :
    ∃ part, part <+: head ++ body.getD [] ∧ (send s head body).2.written = s.written ++ part ∧
    ((send s head body).1 = true → part = head ++ body.getD []) := by
  obtain ⟨front,start,wrote,whole⟩ := writeAllFront s head
  unfold send
  rcases h : s.writeAll head with ⟨_ | _,u⟩
  · rw [h] at wrote
    exact ⟨front,start.trans (List.prefix_append head _),wrote,fun done => by contradiction⟩
  · rw [h] at wrote whole
    cases body with
    | none =>
      refine ⟨front,start.trans (List.prefix_append head _),(flushWritten u).trans wrote,fun _ => ?_⟩
      rw [whole rfl, Option.getD_none, List.append_nil]
    | some data =>
      obtain ⟨behind,more,added,all⟩ := writeAllFront u data
      rw [wrote, whole rfl, List.append_assoc] at added
      have longer : head ++ behind <+: head ++ data := (List.prefix_append_right_inj head).mpr more
      simp only [Option.getD_some]
      rcases k : u.writeAll data with ⟨_ | _,v⟩
      · rw [k] at added
        exact ⟨head ++ behind,longer,added,fun done => by contradiction⟩
      · rw [k] at added all
        exact ⟨head ++ behind,longer,(flushWritten v).trans added,fun _ => by rw [all rfl]⟩

theorem sendTaken (s : Stream) (data : Bytes) : ∃ part, part <+: data ∧
    (send s data none).2.written = s.written ++ part ∧ ((send s data none).1 = true → part = data) := by
  simpa using sendFront s data none

end Nanofish.Sending
