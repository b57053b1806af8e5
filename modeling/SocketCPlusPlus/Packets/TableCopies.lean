import SocketCPlusPlus.Packets.DataRow

/-! A table assigned from another one, from lists of strings, or sent and received. Neither way takes
along the strings that stand in for the text NULL. -/
namespace SocketCPlusPlus.Packets
open Foundation

namespace DynamicDataBucket

def read (b : DynamicDataBucket) (i j : Nat) : Option StdString := b.bucket[i]? >>= (·.read j)

def plain (rows : List (List StdString)) : List DataRow := rows.map fun cells => ⟨cells, []⟩

end DynamicDataBucket
end SocketCPlusPlus.Packets
