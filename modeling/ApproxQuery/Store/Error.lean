/-!
# What can go wrong with a store
-/

namespace ApproxQuery

inductive StoreError where
  /-- A file cannot be read or written. -/
  | inaccessible
  /-- The bytes of a table file are not the encoding of a table. -/
  | undecodable
  /-- A table file announces a text that is longer than any memory. -/
  | lengthOverflow
  /-- The metadata document is not the document of a metadata map. -/
  | malformedMetadata
  | missingTable (name : String)
deriving DecidableEq, Repr

def StoreError.message : StoreError → String
  | inaccessible => "I/O error"
  | undecodable => "Decoding error"
  | lengthOverflow => "Length overflow"
  | malformedMetadata => "Metadata error"
  | missingTable name => "No prepared data for table " ++ name

end ApproxQuery
