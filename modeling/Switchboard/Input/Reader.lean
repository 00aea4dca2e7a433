namespace Switchboard

inductive Chunk where
  | data (bytes : List UInt8)
  | pending
  | interrupted
  | failure (message : String)
deriving DecidableEq

structure Reader where
  gathered : List UInt8
  chunks : List Chunk
deriving DecidableEq

namespace Reader

inductive Poll where
  | blocked (reader : Reader)
  | ready (result : Except String (List UInt8))

-- Empty data is the end as well.
def pollFrom (gathered : List UInt8) : List Chunk → Poll
  | [] => .ready (.ok gathered)
  | .data [] :: _ => .ready (.ok gathered)
  | .data (b :: bs) :: rest => pollFrom (gathered ++ b :: bs) rest
  | .pending :: rest => .blocked ⟨gathered,rest⟩
  | .interrupted :: rest => pollFrom gathered rest
  | .failure message :: _ => .ready (.error message)

def poll (r : Reader) : Poll := pollFrom r.gathered r.chunks

def contentsFrom (gathered : List UInt8) : List Chunk → Except String (List UInt8)
  | [] => .ok gathered
  | .data [] :: _ => .ok gathered
  | .data (b :: bs) :: rest => contentsFrom (gathered ++ b :: bs) rest
  | .pending :: rest => contentsFrom gathered rest
  | .interrupted :: rest => contentsFrom gathered rest
  | .failure message :: _ => .error message

def contents (r : Reader) : Except String (List UInt8) := contentsFrom r.gathered r.chunks

def ofChunks (chunks : List Chunk) : Reader := ⟨[],chunks⟩

end Reader
end Switchboard
