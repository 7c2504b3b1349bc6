import Kaas.Operator.Topic

namespace Kaas

/-! Where the partitions of a topic are placed, over any sequence of its reconciles. -/

namespace KafkaTopic

end KafkaTopic

section Eligible

variable {pool : List LogDirInfo} {spec : Option KafkaTopicStorage} {eligible : List String}

end Eligible

section Runs

variable {t u : KafkaTopic} {r : TopicReconcile}

end Runs

end Kaas
